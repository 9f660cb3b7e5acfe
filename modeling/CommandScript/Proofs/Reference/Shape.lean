import CommandScript.Proofs.Numeral.Grammar
import CommandScript.Proofs.Reference
import CommandScript.Proofs.Relation.Sign
import CommandScript.Proofs.Text.Folded
import CommandScript.Proofs.Text.Trimmed

/-!
# The shape of a reference

Every text that is read as a reference is `$` and a name, an index at most and a trait at most
(`Reference.shaped_of_read`), an index being brackets around names, digits, `$`, minuses and blanks. So a
reference opens one bracket at most and closes it again (`Reference.Shaped.level`), and a scan for
relation signs goes over it (`Reference.Shaped.passes`).
-/

namespace CommandScript

open Text Checked

/-- A word that is a trait has a letter, and letters only. -/
theorem Trait.isAlpha_of_ofWord? {word : String} {t : Trait} (h : ofWord? word = some t) :
    word.toList ≠ [] ∧ ∀ c ∈ word.toList, c.isAlpha = true := by
  have hword := List.find?_some h
  have hname : (t.name.toList.map Char.toUpper).all Char.isAlpha = true := by
    cases t <;> decide +kernel
  refine ⟨fun hnil => ?_, isAlpha_of_isWord hname hword⟩
  have hmap := map_toUpper_of_isWord hword
  rw [hnil] at hmap
  cases t <;> exact absurd hmap (by decide +kernel)

/-- The characters that the inside of an index consists of. -/
def Index.HasChar (c : Char) : Prop :=
  isNameChar c = true ∨ c = '$' ∨ c = '-' ∨ isBlank c = true

instance : DecidablePred Index.HasChar := fun c =>
  inferInstanceAs (Decidable (isNameChar c = true ∨ c = '$' ∨ c = '-' ∨ isBlank c = true))

/-- The scan for relation signs does not look at such a character. -/
theorem Index.HasChar.not_signal {c : Char} (h : HasChar c) : c ∉ Relation.signals := by
  have hsignals : ∀ c ∈ Relation.signals, ¬HasChar c :=
    List.all_iff_forall_prop.mp (by decide)
  exact fun hsignal => hsignals c hsignal h

theorem Index.HasChar.flat {c : Char} (h : HasChar c) : isOpening c = false ∧ isClosing c = false := by
  have hmarks : ∀ c ∈ ['[', '(', ']', ')'], ¬HasChar c :=
    List.all_iff_forall_prop.mp (by decide)
  have hne : ∀ d ∈ ['[', '(', ']', ')'], c ≠ d := fun d hd heq => hmarks d hd (heq ▸ h)
  simp [isOpening, isClosing, hne]

theorem Index.hasChar_of_isAlpha {c : Char} (h : c.isAlpha = true) : HasChar c :=
  .inl (by simp [isNameChar, Char.isAlphanum, h])

theorem Index.hasChar_of_isName {name : List Char} (h : isName name = true) :
    ∀ c ∈ '$' :: name, HasChar c := by
  intro c hc
  rcases List.mem_cons.mp hc with rfl | hc
  · exact .inr (.inl rfl)
  · exact .inl (isNameChar_of_isName h c hc)

theorem Index.hasChar_of_trim {raw : List Char} (h : ∀ c ∈ trim raw, HasChar c) :
    ∀ c ∈ raw, HasChar c := by
  obtain ⟨u, v, hraw, hu, hv⟩ := exists_trim raw
  intro c hc
  rw [hraw, List.mem_append, List.mem_append] at hc
  rcases hc with hc | hc | hc
  · exact .inr (.inr (.inr (hu c hc)))
  · exact h c hc
  · exact .inr (.inr (.inr (hv c hc)))

theorem Bound.hasChar_of_read {raw : List Char} {b : Bound} (h : read raw = .ok b) :
    ∀ c ∈ raw, Index.HasChar c := by
  refine Index.hasChar_of_trim fun c hc => ?_
  simp only [read] at h
  split at h
  · exact (fail_ok.mp h).elim
  · rename_i name hname
    split at h
    · rename_i hvalid
      exact Index.hasChar_of_isName hvalid c (hname ▸ hc)
    · exact (fail_ok.mp h).elim
  · rename_i d rest _ hraw
    split at h
    · rename_i n hn
      rw [hraw] at hc
      have hspells := ((Numeral.digits?_eq_some (by decide)).mp hn).2
      exact .inl (by simp [isNameChar, hspells.isAlphanum c hc])
    · exact (fail_ok.mp h).elim

theorem Index.hasChar_of_read {raw : List Char} {i : Index} (h : read raw = .ok i) :
    ∀ c ∈ raw, HasChar c := by
  refine hasChar_of_trim fun c hc => ?_
  simp only [read] at h
  split at h
  · cases h
  · split at h
    · simp only [bind_ok] at h
      obtain ⟨b, hb, -⟩ := h
      exact Bound.hasChar_of_read hb c hc
    · rename_i a b hcut
      simp only [bind_ok] at h
      obtain ⟨first, hfirst, last, hlast, -⟩ := h
      rw [append_of_cutAtMark hcut, List.mem_append, List.mem_cons] at hc
      rcases hc with hc | rfl | hc
      · exact Bound.hasChar_of_read hfirst c hc
      · exact .inr (.inr (.inl rfl))
      · exact Bound.hasChar_of_read hlast c hc

namespace Reference

/-- An index or nothing. -/
inductive IndexShape : List Char → Prop
  | absent : IndexShape []
  | present {inside} (h : ∀ c ∈ inside, Index.HasChar c) : IndexShape ('[' :: (inside ++ [']']))

/-- A trait or nothing. -/
inductive TraitShape : List Char → Prop
  | absent : TraitShape []
  | present {word} (hne : word ≠ []) (h : ∀ c ∈ word, c.isAlpha = true) : TraitShape ('.' :: word)

/-- A name behind `$`, with an index and a trait. -/
inductive Shaped : List Char → Prop
  | mk {name index trait} (hname : isName name = true) (hindex : IndexShape index)
      (htrait : TraitShape trait) : Shaped ('$' :: (name ++ (index ++ trait)))

section Reading

variable {token : String} {r : Reference} {s rest : List Char}

theorem shape_of_readIndex {i : Option Index} (h : readIndex token s = .ok (i, rest)) :
    ∃ index, s = index ++ rest ∧ IndexShape index := by
  unfold readIndex at h
  split at h
  · split at h
    · exact (fail_ok.mp h).elim
    · rename_i inside rest' hcut
      simp only [bind_ok, pure_ok, Prod.mk.injEq] at h
      obtain ⟨i', hi, -, rfl⟩ := h
      refine ⟨'[' :: (inside ++ [']']), ?_, .present (Index.hasChar_of_read hi)⟩
      rw [append_of_cutAtMark hcut]
      simp
  · exact (fail_ok.mp h).elim
  · cases h
    exact ⟨[], rfl, .absent⟩

theorem shape_of_readTrait {t : Option Trait} (h : readTrait token s = .ok t) : TraitShape s := by
  unfold readTrait at h
  split at h
  · exact .absent
  · split at h
    · rename_i hword
      obtain ⟨hne, halpha⟩ := Trait.isAlpha_of_ofWord? hword
      rw [String.toList_ofList] at hne halpha
      exact .present hne halpha
    · exact (fail_ok.mp h).elim
  · exact (fail_ok.mp h).elim

theorem shaped_of_read (h : read token = .ok r) : Shaped token.toList := by
  unfold read at h
  split at h
  · rename_i body hbody
    cases hname : isName (body.takeWhile isNameChar) with
    | false =>
      simp only [hname, Bool.not_false, ↓reduceIte] at h
      cases h
    | true =>
      simp only [hname, Bool.not_true, Bool.false_eq_true, ↓reduceIte, bind_ok, Prod.exists] at h
      obtain ⟨i, rest, hi, t, ht, -⟩ := h
      obtain ⟨index, hdrop, hindex⟩ := shape_of_readIndex hi
      rw [hbody, ← List.takeWhile_append_dropWhile (p := isNameChar) (l := body), hdrop]
      exact .mk hname hindex (shape_of_readTrait ht)
  · exact (fail_ok.mp h).elim

end Reading

section Characters

variable {c : Char} {s : List Char}

theorem IndexShape.of_mem (h : IndexShape s) (hc : c ∈ s) :
    c = '[' ∨ Index.HasChar c ∨ c = ']' := by
  cases h with
  | absent => cases hc
  | present h =>
    rw [List.mem_cons, List.mem_append, List.mem_singleton] at hc
    exact hc.imp_right (Or.imp_left (h c))

theorem TraitShape.of_mem (h : TraitShape s) (hc : c ∈ s) : c = '.' ∨ c.isAlpha = true := by
  cases h with
  | absent => cases hc
  | present _ h => exact (List.mem_cons.mp hc).imp_right (h c)

theorem Shaped.of_mem (h : Shaped s) (hc : c ∈ s) :
    c ∈ ['[', ']', '.'] ∨ Index.HasChar c := by
  cases h with
  | mk hname hindex htrait =>
    rw [← List.cons_append, List.mem_append, List.mem_append] at hc
    rcases hc with hc | hc | hc
    · exact .inr (Index.hasChar_of_isName hname c hc)
    · rcases hindex.of_mem hc with rfl | hc | rfl
      · exact .inl (by decide)
      · exact .inr hc
      · exact .inl (by decide)
    · rcases htrait.of_mem hc with rfl | hc
      · exact .inl (by decide)
      · exact .inr (Index.hasChar_of_isAlpha hc)

/-- A reference ends in a character of its name or trait or in a bracket. -/
theorem Shaped.tight (h : Shaped s) : Tight s := by
  cases h with
  | @mk name index trait hname hindex htrait =>
    have hfront : Tight ('$' :: name) := tight_of_forall <| List.forall_mem_cons.mpr
      ⟨by decide, fun c hc => isBlank_of_isNameChar (isNameChar_of_isName hname c hc)⟩
    rw [← List.cons_append]
    cases htrait with
    | present hne hword =>
      have hback : ∀ word : List Char, (∀ c ∈ word, c.isAlpha = true) → Tight ('.' :: word) := by
        refine fun word hword => tight_of_forall <| List.forall_mem_cons.mpr ⟨by decide, fun c hc => ?_⟩
        exact isBlank_of_isAlphanum (by simp [Char.isAlphanum, hword c hc])
      exact hfront.append (hback _ hword) (List.cons_ne_nil _ _) (List.cons_ne_nil _ _)
    | absent =>
      cases hindex with
      | @present inside _ =>
        have hback : Tight ('[' :: (inside ++ [']'])) :=
          Tight.append (tight_singleton (c := '[') rfl) (tight_singleton (c := ']') rfl)
            (List.cons_ne_nil _ _) (List.cons_ne_nil _ _)
        rw [List.append_nil]
        exact hfront.append (m := []) hback (List.cons_ne_nil _ _) (List.cons_ne_nil _ _)
      | absent =>
        rw [List.append_nil, List.append_nil]
        exact hfront

/-- The scan for relation signs goes over a reference. -/
theorem Shaped.passes (h : Shaped s) : Relation.Passes s := by
  cases h with
  | @mk name index trait hname hindex htrait =>
    have hfront : Relation.Passes ('$' :: name) :=
      Relation.passes_plain fun c hc => (Index.hasChar_of_isName hname c hc).not_signal
    have hmiddle : Relation.Passes index := by
      cases hindex with
      | absent => exact Relation.passes_plain nofun
      | present h => exact Relation.passes_index fun c hc => (h c hc).not_signal
    have hback : Relation.Passes trait := Relation.passes_plain fun c hc => by
      rcases htrait.of_mem hc with rfl | hc
      · decide
      · exact (Index.hasChar_of_isAlpha hc).not_signal
    exact hfront.append (hmiddle.append hback)

/-- A reference closes the bracket that it opens. -/
theorem Shaped.level (h : Shaped s) : level s = 0 := by
  cases h with
  | @mk name index trait hname hindex htrait =>
    have hfront : Text.level ('$' :: name) = 0 :=
      level_eq_zero fun c hc => (Index.hasChar_of_isName hname c hc).flat
    have hmiddle : Text.level index = 0 := by
      cases hindex with
      | absent => rfl
      | present h =>
        rw [level_cons, level_append, level_eq_zero fun c hc => (h c hc).flat]
        rfl
    have hback : Text.level trait = 0 := level_eq_zero fun c hc => by
      rcases htrait.of_mem hc with rfl | hc
      · decide
      · exact (Index.hasChar_of_isAlpha hc).flat
    rw [← List.cons_append, level_append, level_append, hfront, hmiddle, hback]
    rfl

end Characters

end Reference

end CommandScript
