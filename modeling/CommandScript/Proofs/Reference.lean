import CommandScript.Proofs.Checked
import CommandScript.Proofs.Numeral
import CommandScript.Reference.Reader

/-!
# References are read back

A reference that was read is writable: its name and the names among its bounds are names, a range of
two positions is in order, and a view of the whole variable has no index. Its text is read as the same
reference again (`Reference.read_toText`). The writable references are those that some text is read as, and each
is restored from its own text (`Reference.restored_of_read`).
-/

namespace CommandScript

open Text Checked

section Names

variable {c : Char} {name : List Char}

theorem isNameChar_of_isName (h : isName name = true) : ∀ c ∈ name, isNameChar c = true := by
  cases name with
  | nil => exact nofun
  | cons first rest =>
    simp only [isName, Bool.and_eq_true, List.all_eq_true] at h
    intro c hc
    rcases List.mem_cons.mp hc with rfl | hc
    · simp [isNameChar, Char.isAlphanum, h.1]
    · exact h.2 c hc

theorem isNameChar_of_isDigit (h : c.isDigit = true) : isNameChar c = true := by
  simp [isNameChar, isAlphanum_of_isDigit h]

theorem isBlank_of_isNameChar (h : isNameChar c = true) : isBlank c = false := by
  rcases Bool.or_eq_true_iff.mp h with h | h
  · exact isBlank_of_isAlphanum h
  · rw [eq_of_beq h]
    decide

/-- A name ends in front of the first character that belongs to none. -/
theorem takeWhile_name (rest : List Char) (h : isName name = true)
    (hrest : ∀ c, rest.head? = some c → isNameChar c = false) :
    (name ++ rest).takeWhile isNameChar = name ∧ (name ++ rest).dropWhile isNameChar = rest := by
  have hname := isNameChar_of_isName h
  rw [List.takeWhile_append_of_pos hname, List.dropWhile_append_of_pos hname]
  cases rest with
  | nil => simp
  | cons c rest => simp [hrest c rfl]

end Names

theorem Text.cutAtMark_append {mark : Char} {s rest : List Char} (h : ∀ c ∈ s, c ≠ mark) :
    cutAtMark mark (s ++ mark :: rest) = some (s, rest) := by
  have hs : ∀ c ∈ s, (c != mark) = true := fun c hc => bne_iff_ne.mpr (h c hc)
  simp [cutAtMark, List.dropWhile_append_of_pos hs, List.takeWhile_append_of_pos hs]

theorem Text.cutAtMark_eq_none {mark : Char} {s : List Char} (h : ∀ c ∈ s, c ≠ mark) :
    cutAtMark mark s = none := by
  have hs : (s ++ []).dropWhile (· != mark) = [] :=
    List.dropWhile_append_of_pos fun c hc => bne_iff_ne.mpr (h c hc)
  rw [List.append_nil] at hs
  simp [cutAtMark, hs]

theorem Text.append_of_cutAtMark {mark : Char} {s front rest : List Char}
    (h : cutAtMark mark s = some (front, rest)) : s = front ++ mark :: rest := by
  have hfirst := List.head?_dropWhile_not (· != mark) s
  unfold cutAtMark at h
  split at h
  · cases h
  · rename_i d rest' hdrop
    cases h
    rw [hdrop] at hfirst
    obtain rfl : d = mark := by simpa using hfirst
    rw [← hdrop, List.takeWhile_append_dropWhile]

namespace Bound

/-- The bound has a text that is read back. -/
def Writable : Bound → Prop
  | position _ => True
  | named v => isValidName v = true

variable {b : Bound} {c : Char}

theorem toList_toText_position (n : UInt64) :
    (position n).toText.toList = Nat.toDigits 10 n.toNat := by
  simp [toText]

theorem toList_toText_named (v : String) : (named v).toText.toList = '$' :: v.toList := by
  simp [toText, toString]

/-- The characters of a bound are those of names and `$`. -/
theorem Writable.of_mem (h : b.Writable) (hc : c ∈ b.toText.toList) :
    c = '$' ∨ isNameChar c = true := by
  cases b with
  | position n =>
    rw [toList_toText_position] at hc
    exact .inr (isNameChar_of_isDigit (Numeral.isDigit_of_mem_toDigits hc))
  | named v =>
    rw [toList_toText_named, List.mem_cons] at hc
    exact hc.imp_right (isNameChar_of_isName h c)

theorem Writable.isBlank_of_mem (h : b.Writable) (hc : c ∈ b.toText.toList) : isBlank c = false := by
  rcases h.of_mem hc with rfl | hc
  · decide
  · exact isBlank_of_isNameChar hc

theorem Writable.ne_of_mem {mark : Char} (h : b.Writable) (hmark : mark ≠ '$')
    (hn : isNameChar mark = false) (hc : c ∈ b.toText.toList) : c ≠ mark := by
  rintro rfl
  rcases h.of_mem hc with hc | hc
  · exact hmark hc
  · rw [hn] at hc
    cases hc

theorem toText_ne_nil (b : Bound) : b.toText.toList ≠ [] := by
  cases b with
  | position n =>
    rw [toList_toText_position]
    exact Nat.toDigits_ne_nil
  | named v =>
    rw [toList_toText_named]
    exact List.cons_ne_nil _ _

theorem Writable.read_toText (h : b.Writable) : read b.toText.toList = .ok b := by
  rw [read, trim_eq_self fun c => h.isBlank_of_mem]
  cases b with
  | position n =>
    obtain ⟨c, rest, hn⟩ := Numeral.exists_toDigits n.toNat
    have hc : c.isDigit = true := Numeral.isDigit_of_mem_toDigits (hn ▸ List.mem_cons_self)
    have hdigits := Numeral.digits?_toDigits n.toNat
    rw [hn] at hdigits
    rw [toList_toText_position, hn]
    split
    · contradiction
    · rename_i heq
      cases heq
      exact absurd hc (by decide)
    · rename_i heq
      cases heq
      simp [hdigits, n.toNat_lt_size]
  | named v =>
    have hv : isName v.toList = true := h
    simp [toList_toText_named, hv]

theorem writable_of_read {raw : List Char} (h : read raw = .ok b) : b.Writable := by
  simp only [read] at h
  split at h
  · exact (fail_ok.mp h).elim
  · split at h
    · rename_i hname
      cases h
      simpa [Writable, isValidName] using hname
    · exact (fail_ok.mp h).elim
  · split at h
    · split at h
      · cases h
        trivial
      · exact (fail_ok.mp h).elim
    · exact (fail_ok.mp h).elim

end Bound

namespace Index

/-- The index has a text that is read back. -/
def Writable : Index → Prop
  | single b => b.Writable
  | range first last =>
    first.Writable ∧ last.Writable ∧
      ∀ x y, first = .position x → last = .position y → x ≤ y

/-- The text between the brackets. -/
def inside : Index → List Char
  | single b => b.toText.toList
  | range first last => first.toText.toList ++ '-' :: last.toText.toList

variable {i : Index} {c : Char}

theorem toList_toText (i : Index) : i.toText.toList = '[' :: (i.inside ++ [']']) := by
  cases i <;> simp [toText, inside, toString]

theorem Writable.of_mem (h : i.Writable) (hc : c ∈ i.inside) :
    c = '-' ∨ c = '$' ∨ isNameChar c = true := by
  cases i with
  | single b => exact .inr (Bound.Writable.of_mem h hc)
  | range first last =>
    obtain ⟨hfirst, hlast, -⟩ := h
    rcases List.mem_append.mp hc with hc | hc
    · exact .inr (hfirst.of_mem hc)
    · exact (List.mem_cons.mp hc).imp_right hlast.of_mem

theorem Writable.isBlank_of_mem (h : i.Writable) (hc : c ∈ i.inside) : isBlank c = false := by
  rcases h.of_mem hc with rfl | rfl | hc
  · decide
  · decide
  · exact isBlank_of_isNameChar hc

theorem Writable.ne_close_of_mem (h : i.Writable) (hc : c ∈ i.inside) : c ≠ ']' := by
  rintro rfl
  exact absurd (h.of_mem hc) (by decide)

theorem inside_ne_nil (i : Index) : i.inside ≠ [] := by
  cases i with
  | single b => exact b.toText_ne_nil
  | range first last => simp [inside]

theorem Writable.read_inside (h : i.Writable) : read i.inside = .ok i := by
  have hempty : i.inside.isEmpty = false := by simpa using i.inside_ne_nil
  have hmark : ∀ {b : Bound}, b.Writable → ∀ c ∈ b.toText.toList, c ≠ '-' :=
    fun hb c => hb.ne_of_mem (by decide) (by decide)
  simp only [read, trim_eq_self fun c => h.isBlank_of_mem, hempty, Bool.false_eq_true, ↓reduceIte]
  cases i with
  | single b =>
    simp only [inside, cutAtMark_eq_none (hmark h), Bound.Writable.read_toText h]
    rfl
  | range first last =>
    obtain ⟨hfirst, hlast, horder⟩ := h
    simp only [inside, cutAtMark_append (hmark hfirst), hfirst.read_toText, hlast.read_toText]
    cases first with
    | named v => rfl
    | position x =>
      cases last with
      | named v => rfl
      | position y =>
        have hxy : ¬y < x := UInt64.not_lt.mpr (horder x y rfl rfl)
        simp [bind, Except.bind, hxy]
        rfl

theorem writable_of_read {raw : List Char} (h : read raw = .ok i) : i.Writable := by
  simp only [read] at h
  split at h
  · cases h
  · split at h
    · simp only [bind_ok, pure_ok] at h
      obtain ⟨b, hb, rfl⟩ := h
      exact Bound.writable_of_read hb
    · simp only [bind_ok] at h
      obtain ⟨first, hfirst, last, hlast, h⟩ := h
      have hfirst := Bound.writable_of_read hfirst
      have hlast := Bound.writable_of_read hlast
      split at h
      · split at h
        · exact (fail_ok.mp h).elim
        · rename_i x y hxy
          cases h
          refine ⟨hfirst, hlast, fun x' y' hx hy => ?_⟩
          cases hx
          cases hy
          exact UInt64.not_lt.mp hxy
      · rename_i hpositions
        cases h
        exact ⟨hfirst, hlast, fun x y hx hy => (hpositions x y hx hy).elim⟩

end Index

namespace Reference

/-- The reference has a text that is read back. -/
structure Writable (r : Reference) : Prop where
  name : isValidName r.name = true
  index : ∀ i, r.index = some i → i.Writable
  whole : ∀ t, r.trait = some t → t.isMetadata = true ∨ t = .filter → r.index = none

/-- The text of the index, if there is one. -/
def indexText (r : Reference) : List Char :=
  match r.index with
  | none => []
  | some i => i.toText.toList

/-- The text of the trait, if there is one. -/
def traitText (r : Reference) : List Char :=
  match r.trait with
  | none => []
  | some t => '.' :: t.name.toList

variable {r : Reference} {rest : List Char}

theorem toList_toText (r : Reference) :
    r.toText.toList = '$' :: (r.name.toList ++ (r.indexText ++ r.traitText)) := by
  obtain ⟨name, index, trait⟩ := r
  cases index <;> cases trait <;> simp [toText, indexText, traitText, toString]

/-- What stands behind the name begins with no character of a name. -/
theorem isNameChar_of_behind {c : Char} (hc : (r.indexText ++ r.traitText).head? = some c) :
    isNameChar c = false := by
  unfold indexText traitText at hc
  split at hc
  · split at hc
    · cases hc
    · cases hc
      decide
  · rw [Index.toList_toText] at hc
    cases hc
    decide

theorem ofWord?_name (t : Trait) : Trait.ofWord? t.name = some t := by
  cases t <;> decide +kernel

theorem Writable.readIndex_toText (h : r.Writable) (token : String) :
    readIndex token (r.indexText ++ r.traitText) = .ok (r.index, r.traitText) := by
  unfold indexText
  split
  · rename_i hnone
    rw [hnone, List.nil_append]
    unfold traitText
    split <;> rfl
  · rename_i i hsome
    have hi := h.index i hsome
    have hcut : cutAtMark ']' (i.inside ++ ']' :: r.traitText) = some (i.inside, r.traitText) :=
      cutAtMark_append fun c => hi.ne_close_of_mem
    simp only [Index.toList_toText, List.cons_append, List.append_assoc, List.nil_append, readIndex,
      hcut, hi.read_inside, hsome]
    rfl

theorem readTrait_toText (token : String) : readTrait token r.traitText = .ok r.trait := by
  unfold traitText
  split
  · rename_i hnone
    rw [hnone]
    rfl
  · rename_i t hsome
    rw [hsome]
    simp [readTrait, ofWord?_name]

theorem Writable.checkWhole (h : r.Writable) : checkWhole r = .ok r := by
  unfold Reference.checkWhole
  split
  · rename_i t i ht hi
    rw [if_neg]
    intro hwhole
    have hnone := h.whole t ht (by simpa using hwhole)
    rw [hi] at hnone
    cases hnone
  · rfl

theorem Writable.read_toText (h : r.Writable) : read r.toText = .ok r := by
  have hname : isName r.name.toList = true := h.name
  have hspan := takeWhile_name (r.indexText ++ r.traitText) hname fun c => isNameChar_of_behind
  simp only [read, toList_toText, hspan.1, hspan.2, hname, h.readIndex_toText]
  simp only [Bool.not_true, Bool.false_eq_true, ↓reduceIte, bind, Except.bind, String.ofList_toList,
    readTrait_toText]
  exact h.checkWhole

theorem writable_of_readIndex {token : String} {s : List Char} {i : Index}
    (h : readIndex token s = .ok (some i, rest)) : i.Writable := by
  unfold readIndex at h
  split at h
  · split at h
    · exact (fail_ok.mp h).elim
    · simp only [bind_ok, pure_ok, Prod.mk.injEq, Option.some.injEq] at h
      obtain ⟨i', hi, rfl, -⟩ := h
      exact Index.writable_of_read hi
  · exact (fail_ok.mp h).elim
  · cases h

theorem checkWhole_ok {a : Reference} (h : Reference.checkWhole a = .ok r) :
    r = a ∧ ∀ t, a.trait = some t → t.isMetadata = true ∨ t = .filter → a.index = none := by
  unfold Reference.checkWhole at h
  split at h
  · rename_i t i ht hi
    split at h
    · exact (fail_ok.mp h).elim
    · rename_i hwhole
      cases h
      refine ⟨rfl, fun t' ht' hwhole' => absurd ?_ hwhole⟩
      rw [ht] at ht'
      cases ht'
      simpa using hwhole'
  · rename_i hnone
    cases h
    refine ⟨rfl, fun t ht _ => ?_⟩
    cases hi : r.index with
    | none => rfl
    | some i => exact (hnone t i ht hi).elim

theorem writable_of_read {token : String} (h : read token = .ok r) : r.Writable := by
  unfold read at h
  split at h
  · rename_i body _
    cases hname : isName (body.takeWhile isNameChar) with
    | false =>
      simp only [hname, Bool.not_false, ↓reduceIte] at h
      cases h
    | true =>
      simp only [hname, Bool.not_true, Bool.false_eq_true, ↓reduceIte, bind_ok, Prod.exists] at h
      obtain ⟨index, rest, hindex, trait, -, h⟩ := h
      obtain ⟨rfl, hwhole⟩ := checkWhole_ok h
      refine ⟨by simpa [isValidName] using hname, ?_, hwhole⟩
      rintro i rfl
      exact writable_of_readIndex hindex
  · exact (fail_ok.mp h).elim

/-- The writable references are restored from their texts, and what is read from any text is one of
them: its own text gives it again, whatever blanks, zeros and letters it was read from. -/
theorem restored_of_read (r : Reference) :
    (read r.toText = .ok r ↔ r.Writable) ∧
    ∀ token, read token = .ok r → r.Writable ∧ read r.toText = .ok r := by
  refine ⟨⟨writable_of_read, Writable.read_toText⟩, fun token h => ?_⟩
  have hr := writable_of_read h
  exact ⟨hr, hr.read_toText⟩

theorem restored_of_read_spaced :
    read "$L[\u00a0007 - $END ].toString" =
      .ok ⟨"L", some (.range (.position 7) (.named "END")), some .text⟩ ∧
    read "$L[7-$END].TOSTRING" =
      .ok ⟨"L", some (.range (.position 7) (.named "END")), some .text⟩ := by
  have h : read "$L[\u00a0007 - $END ].toString" =
      .ok ⟨"L", some (.range (.position 7) (.named "END")), some .text⟩ :=
    ok_of_toOption (by decide +kernel)
  exact ⟨h, ((restored_of_read _).2 _ h).2⟩

end Reference

end CommandScript
