import CommandScript.Proofs.Formula.Layout

/-!
# Blanks around a formula

A formula is read from its text without the blanks around it as well (`Formula.read_trimmed`). Blanks in
front are passed over, and no token reaches into the blanks behind it: a number and a name end before them,
and a reference that takes them in has no closing bracket and is refused.
-/

namespace CommandScript.Formula

open Checked Text

variable {formula formula' : String} {last : Option Token} {c : Char} {s u v : List Char} {t : Token}
  {ts : List Token}

/-- A token begins and ends with no blank. -/
theorem tight_of_spelledBy (h : t.SpelledBy s) : Tight s := by
  cases h with
  | value hc hrun => exact tight_of_forall (Token.isBlank_of_value hc hrun)
  | reference h =>
    have hshaped := Reference.shaped_of_read h
    rw [String.toList_ofList] at hshaped
    exact hshaped.tight
  | operator op => cases op <;> exact tight_singleton (by decide)
  | opening | closing => exact tight_singleton (by decide)

theorem startsWithDigit_append (hv : ∀ c ∈ v, isBlank c = true) :
    startsWithDigit (s ++ v) = startsWithDigit s := by
  cases s with
  | cons c s => rfl
  | nil =>
    cases v with
    | nil => rfl
    | cons c v => exact not_isDigit_of_isBlank (hv c List.mem_cons_self)

/-- A token in front of a text has no part in the blanks behind it. -/
theorem Front.of_append {more : Nat} (hv : ∀ c ∈ v, isBlank c = true)
    (h : Front last c (s ++ v) t more) :
    Front last c s t more ∧ more ≤ s.length := by
  cases h with
  | opening => exact ⟨.opening, Nat.zero_le _⟩
  | closing => exact ⟨.closing, Nat.zero_le _⟩
  | operator op hop =>
    rw [startsWithDigit_append hv] at hop
    exact ⟨.operator op hop, Nat.zero_le _⟩
  | number hc hn =>
    have hrun : alphanumerics (s ++ v) = alphanumerics s :=
      takeWhile_append_of_isBlank (fun _ => not_isAlphanum_of_isBlank) hv
    rw [startsWithDigit_append hv] at hc
    rw [hrun] at hn ⊢
    exact ⟨.number hc hn, (List.takeWhile_prefix _).length_le⟩
  | reference h =>
    have hne : '$' :: s ≠ [] := List.cons_ne_nil _ _
    have hle := Reference.span_le hne
    rw [List.length_cons] at hle
    have hspan : Reference.span ('$' :: (s ++ v)) = Reference.span ('$' :: s) := by
      rcases Reference.span_append_of_isBlank hne hv with hspan | hall
      · exact hspan
      -- a reference with the blanks in it would end in one
      rw [List.cons_append] at hall
      rw [hall, List.take_length] at h
      have htight := (tight_of_spelledBy (.reference h)).last
      rcases List.eq_nil_or_concat v with rfl | ⟨v, c, rfl⟩
      · rw [List.append_nil]
      · have hc := htight c (by simp [List.getLast?_cons])
        rw [hv c (by simp)] at hc
        cases hc
    rw [hspan] at h ⊢
    rw [← List.cons_append, List.take_append_of_le_length (by simpa using hle)] at h
    exact ⟨.reference h, by omega⟩

/-- A blank that stands alone is a space or a tab. -/
theorem lexFrom_of_isBlank (hc : isBlank c = true) (h : lexFrom formula last 0 (c :: s) = .ok ts) :
    lexFrom formula last 0 s = .ok ts := by
  rcases lexFrom_cons.mp h with ⟨-, h⟩ | ⟨t, more, ts', hfront, -⟩
  · exact h
  · have hfirst := (tight_of_spelledBy hfront.spelledBy).head c rfl
    rw [hc] at hfirst
    cases hfirst

theorem lexFrom_of_append_left (hu : ∀ c ∈ u, isBlank c = true)
    (h : lexFrom formula last 0 (u ++ s) = .ok ts) : lexFrom formula last 0 s = .ok ts := by
  induction u with
  | nil => exact h
  | cons c u ih =>
    obtain ⟨hc, hu⟩ := List.forall_mem_cons.mp hu
    exact ih hu (lexFrom_of_isBlank hc h)

/-- The tokens of a text are those of the text without the blanks behind it. -/
theorem lexFrom_of_append_right (hv : ∀ c ∈ v, isBlank c = true)
    (h : lexFrom formula last 0 (s ++ v) = .ok ts) : lexFrom formula' last 0 s = .ok ts := by
  induction hn : s.length using Nat.strongRecOn generalizing s last ts with
  | ind n ih =>
    cases s with
    | nil =>
      have hnil := lexFrom_of_append_left (s := []) hv (by simpa using h)
      cases hnil
      rfl
    | cons c rest =>
      have hlt : ∀ more, (rest.drop more).length < n := by
        intro more
        rw [← hn, List.length_drop, List.length_cons]
        omega
      rw [List.cons_append] at h
      refine lexFrom_cons.mpr ?_
      rcases lexFrom_cons.mp h with ⟨hspace, h⟩ | ⟨t, more, ts', hfront, hts', rfl⟩
      · exact .inl ⟨hspace, ih _ (hlt 0) h rfl⟩
      · obtain ⟨hfront, hle⟩ := hfront.of_append hv
        rw [List.drop_append_of_le_length hle] at hts'
        exact .inr ⟨t, more, ts', hfront, ih _ (hlt more) hts' rfl, rfl⟩

/-- A formula is read from its own text. -/
theorem read_trimmed {raw : String} {f : Formula} (h : read raw = .ok f) : read f.text = .ok f := by
  obtain ⟨hlex, hforms, htext⟩ := read_iff.mp h
  obtain ⟨u, v, hraw, hu, hv⟩ := exists_trim raw.toList
  refine read_iff.mpr ⟨?_, hforms, ?_⟩
  · rw [lex, hraw] at hlex
    rw [lex, htext, String.toList_ofList]
    exact lexFrom_of_append_right hv (lexFrom_of_append_left hu hlex)
  · rw [htext, String.toList_ofList, trim_trim]

theorem toList_text {raw : String} {f : Formula} (h : read raw = .ok f) :
    trim raw.toList = f.text.toList := by
  rw [(read_iff.mp h).2.2, String.toList_ofList]

theorem tight_text {raw : String} {f : Formula} (h : read raw = .ok f) : Tight f.text.toList :=
  toList_text h ▸ tight_trim raw.toList

end CommandScript.Formula
