import CommandScript.Proofs.Text.Quoted
import CommandScript.Relation

/-!
# The first relation sign of a text

The scan for a relation sign passes over a literal, whatever it holds, over an index in brackets and over
every character that has no meaning to it (`Passes`), and stops at the first sign behind such a text
(`find?_of_passes`).
-/

namespace CommandScript.Relation

open Text

/-- The characters that the scan looks at. -/
def signals : List Char :=
  ['\\', '"', '[', ']', '=', '!', '<', '>']

/-- Outside quotes and brackets the scan goes over the text and is outside again behind it. -/
def Passes (s : List Char) : Prop :=
  ∀ before rest, findFrom false 0 before (s ++ rest) = findFrom false 0 (s.reverse ++ before) rest

variable {c : Char} {s u v : List Char} {quoted : Bool} {depth : Int} {before rest : List Char}

theorem ne_of_not_mem_signals {d : Char} (h : c ∉ signals) (hd : d ∈ signals) : c ≠ d :=
  fun heq => h (heq ▸ hd)

theorem atFront?_eq_none (h : c ∉ signals) : atFront? (c :: rest) = none := by
  unfold atFront?
  split
  case h_7 => rfl
  all_goals
    rename_i heq
    cases heq
    exact absurd (by decide) h

theorem findFrom_plain (h : c ∉ signals) :
    findFrom quoted depth before (c :: rest) = findFrom quoted depth (c :: before) rest := by
  have hne : ∀ {d}, d ∈ signals → c ≠ d := ne_of_not_mem_signals h
  rw [findFrom.eq_7 quoted depth before c rest (fun hc _ => hne (by decide) hc)
    (fun _ _ hc _ => hne (by decide) hc) (hne (by decide)) (hne (by decide)) (hne (by decide)),
    atFront?_eq_none h]
  simp

theorem findFrom_plains (h : ∀ c ∈ s, c ∉ signals) :
    findFrom quoted depth before (s ++ rest) = findFrom quoted depth (s.reverse ++ before) rest := by
  induction s generalizing before with
  | nil => rfl
  | cons c s ih =>
    obtain ⟨hc, hs⟩ := List.forall_mem_cons.mp h
    rw [List.cons_append, findFrom_plain hc, ih hs]
    simp

theorem passes_plain (h : ∀ c ∈ s, c ∉ signals) : Passes s :=
  fun _ _ => findFrom_plains h

theorem passes_singleton (h : c ∉ signals) : Passes [c] :=
  passes_plain (List.forall_mem_singleton.mpr h)

theorem Passes.append (hu : Passes u) (hv : Passes v) : Passes (u ++ v) := by
  intro before rest
  rw [List.append_assoc, hu, hv]
  simp

/-- An index holds nothing that the scan looks at. -/
theorem passes_index (h : ∀ c ∈ s, c ∉ signals) : Passes ('[' :: (s ++ [']'])) := by
  intro before rest
  calc findFrom false 0 before ('[' :: (s ++ [']']) ++ rest)
      = findFrom false 1 ('[' :: before) (s ++ ']' :: rest) := by
        rw [List.cons_append, List.append_assoc]
        rfl
    _ = findFrom false 1 (s.reverse ++ '[' :: before) (']' :: rest) := findFrom_plains h
    _ = findFrom false 0 (('[' :: (s ++ [']'])).reverse ++ before) rest := by
        simp [findFrom]

/-- Inside quotes only a quote and a backslash have a meaning. -/
theorem findFrom_inside (h : ¬(c = '"' ∨ c = '\\')) :
    findFrom true depth before (c :: rest) = findFrom true depth (c :: before) rest := by
  rw [not_or] at h
  by_cases hopen : c = '['
  · rw [hopen]
    rfl
  by_cases hclose : c = ']'
  · rw [hclose]
    rfl
  rw [findFrom.eq_7 true depth before c rest (fun hc _ => h.2 hc) (fun _ _ hc _ => h.2 hc) h.1 hopen hclose]
  rfl

/-- Inside quotes the scan goes over a text whose quotes and backslashes are covered. -/
theorem findFrom_covered : findFrom true depth before (covered s ++ rest) =
    findFrom true depth ((covered s).reverse ++ before) rest := by
  induction s generalizing before with
  | nil => rfl
  | cons c s ih =>
    by_cases hc : c = '"' ∨ c = '\\'
    · rw [covered_cons_of_special hc]
      simp only [List.cons_append, findFrom, ↓reduceIte, ih]
      simp
    · rw [covered_cons_of_plain hc, List.cons_append, findFrom_inside hc, ih]
      simp

theorem passes_quoted (s : String) : Passes (Text.quoted s).toList := by
  intro before rest
  rw [toList_quoted]
  calc findFrom false 0 before ('"' :: (covered s.toList ++ ['"']) ++ rest)
      = findFrom true 0 ('"' :: before) (covered s.toList ++ '"' :: rest) := by
        rw [List.cons_append, List.append_assoc]
        rfl
    _ = findFrom true 0 ((covered s.toList).reverse ++ '"' :: before) ('"' :: rest) := findFrom_covered
    _ = findFrom false 0 (('"' :: (covered s.toList ++ ['"'])).reverse ++ before) rest := by
        simp [findFrom]

/-- The sign behind such a text and a space is the first one. -/
theorem find?_of_passes (h : Passes s) (r : Relation) (rest : List Char) :
    find? (s ++ ' ' :: (r.symbol.toList ++ ' ' :: rest)) = some (s ++ [' '], r, ' ' :: rest) := by
  rw [find?, h, findFrom_plain (by decide)]
  cases r <;> simp [findFrom, symbol, atFront?]

theorem find?_eq_none (h : Passes s) : find? s = none := by
  have hend := h [] []
  rw [List.append_nil] at hend
  rw [find?, hend]
  rfl

theorem append_of_atFront? {r : Relation} (h : atFront? s = some (r, rest)) :
    s = r.symbol.toList ++ rest := by
  unfold atFront? at h
  split at h
  all_goals
    cases h
  all_goals rfl

theorem append_of_findFrom {r : Relation} (h : findFrom quoted depth before s = some (u, r, v)) :
    before.reverse ++ s = u ++ (r.symbol.toList ++ v) := by
  fun_induction findFrom quoted depth before s with
  | case1 | case2 => cases h
  | case8 _ _ before c rest _ _ _ _ _ r after hfound =>
    have hfront : atFront? (c :: rest) = some (r, after) := (Option.ite_none_left_eq_some.mp hfound).2
    cases h
    rw [append_of_atFront? hfront]
  -- a step without a sign moves the character to what stands before
  | case3 _ _ _ _ ih | case4 _ _ _ _ _ _ ih | case5 _ _ _ _ ih | case6 _ _ _ _ ih | case7 _ _ _ _ ih
  | case9 _ _ _ _ _ _ _ _ _ _ _ ih => simpa using ih h

/-- The text is what stands before the sign, the sign and what follows. -/
theorem append_of_find? {r : Relation} (h : find? s = some (u, r, v)) :
    s = u ++ (r.symbol.toList ++ v) :=
  append_of_findFrom h

end CommandScript.Relation
