import CommandScript.Proofs.Reference.Shape

/-!
# How far a reference reaches

The reference that a text begins with is measured by its shape alone. A reference in front of a blank is
measured to its full length (`Reference.Shaped.span_append`). Blanks behind a text change the measure of
what it begins with in one case only: they are taken in when an index is not closed
(`Reference.span_append_of_isBlank`).
-/

namespace CommandScript

open Text

theorem take_takeWhile (p : Char → Bool) (s : List Char) :
    s.take (s.takeWhile p).length = s.takeWhile p :=
  (List.prefix_iff_eq_take.mp (List.takeWhile_prefix p)).symm

theorem takeWhile_eq_nil {p : Char → Bool} {s : List Char} :
    s.takeWhile p = [] ↔ s.head?.any p = false := by
  cases s with
  | nil => simp
  | cons c s => cases hc : p c <;> simp [hc]

section Blanks

variable {c : Char} {s v : List Char}

theorem eq_false_of_isBlank {p : Char → Bool} (hp : ∀ c, p c = true → isBlank c = false)
    (h : isBlank c = true) : p c = false := by
  rw [Bool.eq_false_iff]
  intro hc
  rw [hp c hc] at h
  cases h

theorem not_isNameChar_of_isBlank (h : isBlank c = true) : isNameChar c = false :=
  eq_false_of_isBlank (fun _ => isBlank_of_isNameChar) h

theorem not_isAlphanum_of_isBlank (h : isBlank c = true) : c.isAlphanum = false :=
  eq_false_of_isBlank (fun _ => isBlank_of_isAlphanum) h

theorem not_isAlpha_of_isBlank (h : isBlank c = true) : c.isAlpha = false :=
  (Bool.or_eq_false_iff.mp (not_isAlphanum_of_isBlank h)).1

theorem not_isDigit_of_isBlank (h : isBlank c = true) : c.isDigit = false :=
  (Bool.or_eq_false_iff.mp (not_isAlphanum_of_isBlank h)).2

theorem ne_of_isBlank {d : Char} (h : isBlank c = true) (hd : isBlank d = false) : c ≠ d := by
  rintro rfl
  rw [h] at hd
  cases hd

theorem takeWhile_append_of_isBlank {p : Char → Bool} (hp : ∀ c, isBlank c = true → p c = false)
    (hv : ∀ c ∈ v, isBlank c = true) : (s ++ v).takeWhile p = s.takeWhile p := by
  have hend : v.takeWhile p = [] := by
    cases v with
    | nil => rfl
    | cons c v => exact List.takeWhile_cons_of_neg (by simp [hp c (hv c List.mem_cons_self)])
  rw [List.takeWhile_append, hend]
  split
  · rename_i hall
    rw [List.append_nil, (List.takeWhile_prefix p).eq_of_length hall]
  · rfl

end Blanks

namespace Reference

variable {c : Char} {s v rest : List Char} {r : Reference}

theorem span_pos (s : List Char) : 0 < span s := by
  simp only [span]
  omega

theorem indexSpan_eq_zero (h : ∀ c, s.head? = some c → c ≠ '[') : indexSpan s = 0 := by
  unfold indexSpan
  split
  · exact absurd rfl (h '[' rfl)
  · rfl

theorem traitSpan_eq_zero (h : ∀ c, s.head? = some c → c ≠ '.') : traitSpan s = 0 := by
  unfold traitSpan
  split
  · exact absurd rfl (h '.' rfl)
  · rfl

theorem indexSpan_closed {inside : List Char} (h : ']' ∉ inside) :
    indexSpan ('[' :: (inside ++ ']' :: rest)) = inside.length + 2 := by
  have hinside : ∀ d ∈ inside, (d != ']') = true := fun d hd => bne_iff_ne.mpr fun heq => h (heq ▸ hd)
  simp [indexSpan, List.dropWhile_append_of_pos hinside, List.takeWhile_append_of_pos hinside]

/-- An index that is not closed takes all of the text. -/
theorem indexSpan_open (h : ']' ∉ s) : indexSpan ('[' :: s) = ('[' :: s).length := by
  have hs : ∀ d ∈ s, (d != ']') = true := fun d hd => bne_iff_ne.mpr fun heq => h (heq ▸ hd)
  have hdrop : (s ++ []).dropWhile (· != ']') = [] := List.dropWhile_append_of_pos hs
  rw [List.append_nil] at hdrop
  simp [indexSpan, hdrop]

/-- An index is measured to its own length, and no index if none stands behind it. -/
theorem IndexShape.indexSpan_append (h : IndexShape s)
    (hrest : s = [] → ∀ c, rest.head? = some c → c ≠ '[') : indexSpan (s ++ rest) = s.length := by
  cases h with
  | absent => exact indexSpan_eq_zero (hrest rfl)
  | @present inside h =>
    have hinside : ']' ∉ inside := fun hd => absurd (h ']' hd) (by decide)
    rw [List.cons_append, List.append_assoc, List.singleton_append, indexSpan_closed hinside]
    simp

/-- A trait goes on through the letters behind it. -/
theorem traitSpan_word {word : List Char} (hne : word ≠ []) (h : ∀ c ∈ word, c.isAlpha = true) :
    traitSpan ('.' :: (word ++ rest)) = word.length + 1 + (rest.takeWhile Char.isAlpha).length := by
  obtain ⟨c, cs, rfl⟩ := List.exists_cons_of_ne_nil hne
  obtain ⟨hc, hcs⟩ := List.forall_mem_cons.mp h
  simp only [traitSpan, List.cons_append, hc, ↓reduceIte, List.takeWhile_append_of_pos hcs,
    List.length_append, List.length_cons]
  omega

theorem TraitShape.traitSpan_append (h : TraitShape s)
    (hrest : ∀ c, rest.head? = some c → isBlank c = true) : traitSpan (s ++ rest) = s.length := by
  have hend : traitSpan rest = 0 ∧ rest.takeWhile Char.isAlpha = [] := by
    cases rest with
    | nil => exact ⟨rfl, rfl⟩
    | cons c rest =>
      have hc := hrest c rfl
      refine ⟨?_, List.takeWhile_cons_of_neg (by simp [not_isAlpha_of_isBlank hc])⟩
      refine traitSpan_eq_zero fun d hd => ?_
      cases hd
      exact ne_of_isBlank hc (by decide)
  cases h with
  | absent => exact hend.1
  | present hne h => rw [List.cons_append, traitSpan_word hne h, hend.2, List.length_cons,
      List.length_nil, Nat.add_zero]

/-- The measure of a text whose name ends, by what stands behind the name. -/
theorem span_name {name : List Char} (hname : isName name = true)
    (hrest : ∀ c, rest.head? = some c → isNameChar c = false) :
    span ('$' :: (name ++ rest)) =
      1 + name.length + indexSpan rest + traitSpan (rest.drop (indexSpan rest)) := by
  have hdrop : ('$' :: (name ++ rest)).drop (1 + name.length) = rest := by
    rw [Nat.add_comm, List.drop_succ_cons, List.drop_left]
  simp only [span, List.drop_succ_cons, List.drop_zero, (takeWhile_name rest hname hrest).1,
    ← List.drop_drop, hdrop]

/-- The measure of a text that begins with a name and an index, by what stands behind them. -/
theorem IndexShape.span_append {name index : List Char} (h : IndexShape index)
    (hname : isName name = true)
    (hrest : index = [] → ∀ c, rest.head? = some c → isNameChar c = false ∧ c ≠ '[') :
    span ('$' :: (name ++ (index ++ rest))) =
      1 + name.length + index.length + traitSpan rest := by
  have hend : ∀ c, (index ++ rest).head? = some c → isNameChar c = false := by
    intro c hc
    cases h with
    | absent => exact (hrest rfl c hc).1
    | present =>
      cases hc
      decide
  rw [span_name hname hend, h.indexSpan_append fun hnil c hc => (hrest hnil c hc).2, List.drop_left]

/-- A reference in front of a blank is measured to its full length. -/
theorem Shaped.span_append (h : Shaped s) (hrest : ∀ c, rest.head? = some c → isBlank c = true) :
    span (s ++ rest) = s.length := by
  cases h with
  | @mk name index trait hname hindex htrait =>
    have hbehind : ∀ c, (trait ++ rest).head? = some c → isNameChar c = false ∧ c ≠ '[' := by
      intro c hc
      cases htrait with
      | absent =>
        have hblank := hrest c hc
        exact ⟨not_isNameChar_of_isBlank hblank, ne_of_isBlank hblank (by decide)⟩
      | present =>
        cases hc
        decide
    simp only [List.cons_append, List.append_assoc]
    rw [hindex.span_append hname fun _ => hbehind, htrait.traitSpan_append hrest]
    simp only [List.length_cons, List.length_append]
    omega

theorem Shaped.span_eq (h : Shaped s) : span s = s.length := by
  have hspan : span (s ++ []) = s.length := h.span_append nofun
  rwa [List.append_nil] at hspan

theorem Writable.span_toText (h : r.Writable) (hrest : ∀ c, rest.head? = some c → isBlank c = true) :
    span (r.toText.toList ++ rest) = r.toText.toList.length :=
  (shaped_of_read h.read_toText).span_append hrest

/-! ### Blanks behind a text -/

/-- A text begins with no index, with one, or with one that is not closed. -/
theorem index_cases (s : List Char) : (∀ c, s.head? = some c → c ≠ '[') ∨
    (∃ inside behind, ']' ∉ inside ∧ s = '[' :: (inside ++ ']' :: behind)) ∨
    ∃ inside, ']' ∉ inside ∧ s = '[' :: inside := by
  by_cases hhead : ∀ c, s.head? = some c → c ≠ '['
  · exact .inl hhead
  obtain ⟨rest, rfl⟩ : ∃ rest, s = '[' :: rest := by
    cases s with
    | nil => exact absurd nofun hhead
    | cons c rest => exact ⟨rest, by simpa using hhead⟩
  by_cases hclose : ']' ∈ rest
  · obtain ⟨inside, behind, rfl, hinside⟩ := List.eq_append_cons_of_mem hclose
    exact .inr (.inl ⟨inside, behind, hinside, rfl⟩)
  · exact .inr (.inr ⟨rest, hclose, rfl⟩)

theorem indexSpan_le (s : List Char) : indexSpan s ≤ s.length := by
  rcases index_cases s with hhead | ⟨inside, behind, hinside, rfl⟩ | ⟨inside, hinside, rfl⟩
  · rw [indexSpan_eq_zero hhead]
    exact Nat.zero_le _
  · rw [indexSpan_closed hinside]
    simp only [List.length_cons, List.length_append]
    omega
  · exact Nat.le_of_eq (indexSpan_open hinside)

theorem indexSpan_append_of_isBlank (hv : ∀ c ∈ v, isBlank c = true) :
    indexSpan (s ++ v) = indexSpan s ∨ indexSpan (s ++ v) = (s ++ v).length := by
  rcases index_cases s with hhead | ⟨inside, behind, hinside, rfl⟩ | ⟨inside, hinside, rfl⟩
  · refine .inl ?_
    rw [indexSpan_eq_zero hhead, indexSpan_eq_zero]
    intro c hc
    rw [List.head?_append, Option.or_eq_some_iff] at hc
    rcases hc with hc | ⟨-, hc⟩
    · exact hhead c hc
    · exact ne_of_isBlank (hv c (List.mem_of_mem_head? hc)) (by decide)
  · refine .inl ?_
    rw [List.cons_append, List.append_assoc, List.cons_append, indexSpan_closed hinside,
      indexSpan_closed hinside]
  · refine .inr ?_
    rw [List.cons_append, indexSpan_open]
    intro hmem
    rcases List.mem_append.mp hmem with hmem | hmem
    · exact hinside hmem
    · exact absurd (hv ']' hmem) (by decide)

theorem traitSpan_le (s : List Char) : traitSpan s ≤ s.length := by
  unfold traitSpan
  split
  · rename_i c rest
    have hle : (rest.takeWhile Char.isAlpha).length ≤ rest.length := (List.takeWhile_prefix _).length_le
    split
    · simp only [List.length_cons]
      omega
    · exact Nat.zero_le _
  · exact Nat.zero_le _

theorem traitSpan_append_of_isBlank (hv : ∀ c ∈ v, isBlank c = true) :
    traitSpan (s ++ v) = traitSpan s := by
  have hletters : ∀ rest : List Char, (rest ++ v).takeWhile Char.isAlpha = rest.takeWhile Char.isAlpha :=
    fun rest => takeWhile_append_of_isBlank (fun _ => not_isAlpha_of_isBlank) hv
  cases s with
  | nil =>
    rw [List.nil_append, traitSpan_eq_zero fun c hc => ?_]
    · rfl
    · exact ne_of_isBlank (hv c (List.mem_of_mem_head? hc)) (by decide)
  | cons d rest =>
    by_cases hd : d = '.'
    · subst hd
      cases rest with
      | cons c rest => simp [traitSpan, hletters]
      | nil =>
        cases v with
        | nil => rfl
        | cons c v => simp [traitSpan, not_isAlpha_of_isBlank (hv c List.mem_cons_self)]
    · rw [List.cons_append, traitSpan_eq_zero, traitSpan_eq_zero]
      all_goals
        intro c hc
        cases hc
        exact hd

theorem span_le (hne : s ≠ []) : span s ≤ s.length := by
  obtain ⟨c, rest, rfl⟩ := List.exists_cons_of_ne_nil hne
  have hname : (rest.takeWhile isNameChar).length ≤ rest.length := (List.takeWhile_prefix _).length_le
  have hindex := indexSpan_le ((c :: rest).drop (1 + (rest.takeWhile isNameChar).length))
  have htrait := traitSpan_le ((c :: rest).drop (1 + (rest.takeWhile isNameChar).length +
    indexSpan ((c :: rest).drop (1 + (rest.takeWhile isNameChar).length))))
  simp only [List.length_drop, List.length_cons] at hindex htrait
  simp only [span, List.drop_succ_cons, List.drop_zero, List.length_cons]
  omega

/-- Blanks behind a text are no part of the reference that it begins with, unless they stand in an index
that is not closed. -/
theorem span_append_of_isBlank (hne : s ≠ []) (hv : ∀ c ∈ v, isBlank c = true) :
    span (s ++ v) = span s ∨ span (s ++ v) = (s ++ v).length := by
  obtain ⟨c, rest, rfl⟩ := List.exists_cons_of_ne_nil hne
  have hname : (rest ++ v).takeWhile isNameChar = rest.takeWhile isNameChar :=
    takeWhile_append_of_isBlank (fun _ => not_isNameChar_of_isBlank) hv
  generalize hn : 1 + (rest.takeWhile isNameChar).length = n
  have hle : n ≤ (c :: rest).length := by
    have hprefix : (rest.takeWhile isNameChar).length ≤ rest.length := (List.takeWhile_prefix _).length_le
    rw [List.length_cons]
    omega
  have hspan : ∀ u, u = c :: rest ∨ u = c :: rest ++ v → span u =
      n + indexSpan (u.drop n) + traitSpan (u.drop (n + indexSpan (u.drop n))) := by
    rintro u (rfl | rfl)
    · simp only [span, List.drop_succ_cons, List.drop_zero, hn]
    · simp only [span, List.cons_append, List.drop_succ_cons, List.drop_zero, hname, hn]
  rw [hspan _ (.inl rfl), hspan _ (.inr rfl), List.drop_append_of_le_length hle]
  rcases indexSpan_append_of_isBlank (s := (c :: rest).drop n) hv with hindex | hindex
  · have hle' : n + indexSpan ((c :: rest).drop n) ≤ (c :: rest).length := by
      have hindex' := indexSpan_le ((c :: rest).drop n)
      rw [List.length_drop] at hindex'
      omega
    rw [hindex, List.drop_append_of_le_length hle', traitSpan_append_of_isBlank hv]
    exact .inl rfl
  · have hlength : n + ((c :: rest).drop n ++ v).length = (c :: rest ++ v).length := by
      rw [List.length_append, List.length_append, List.length_drop]
      omega
    rw [hindex, hlength, List.drop_length]
    exact .inr rfl

end Reference

end CommandScript
