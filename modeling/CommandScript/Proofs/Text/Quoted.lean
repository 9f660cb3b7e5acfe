import CommandScript.Proofs.Checked
import CommandScript.Text.Quoted

/-!
# Quoted texts are read back, and where texts are cut

A literal that is written with a backslash before every quote and every backslash stands for the text it
was written from (`readLiteral_quoted`), whatever characters that text has. A scan that cuts at marks
outside quotes and brackets goes over a text without such a mark in one piece (`cutOutside_append`);
literals are such texts (`whole_quoted`), and so are texts without quotes all of whose marks stand inside
brackets (`whole_of_inside`).
-/

namespace CommandScript.Text

/-- The text with a backslash before every quote and every backslash. -/
def covered (s : List Char) : List Char :=
  s.flatMap fun c => if c = '"' ∨ c = '\\' then ['\\', c] else [c]

/-- The literal that a text is written as. -/
def quoted (s : String) : String :=
  String.ofList ('"' :: (covered s.toList ++ ['"']))

variable {c : Char} {s u v : List Char}

theorem toList_quoted (s : String) : (quoted s).toList = '"' :: (covered s.toList ++ ['"']) :=
  String.toList_ofList

theorem covered_cons_of_special (h : c = '"' ∨ c = '\\') :
    covered (c :: s) = '\\' :: c :: covered s := by
  simp [covered, h]

theorem covered_cons_of_plain (h : ¬(c = '"' ∨ c = '\\')) : covered (c :: s) = c :: covered s := by
  simp [covered, h]

theorem decodeInside_covered (token : String) (s : List Char) :
    decodeInside token (covered s) = .ok s := by
  induction s with
  | nil => rfl
  | cons c s ih =>
    by_cases hc : c = '"' ∨ c = '\\'
    · have hself : escapedChar c = c := by rcases hc with rfl | rfl <;> rfl
      rw [covered_cons_of_special hc, decodeInside, ih, hself]
      rfl
    · rw [covered_cons_of_plain hc]
      rw [not_or] at hc
      rw [decodeInside.eq_5 token c _ (fun h _ => hc.2 h) (fun _ _ h _ => hc.2 h) hc.1, ih]
      rfl

theorem unquote?_quoted (s : String) : unquote? (quoted s).toList = some (covered s.toList) := by
  simp [toList_quoted, unquote?]

theorem readLiteral_quoted (s : String) : readLiteral (quoted s) = .ok s := by
  rw [readLiteral, unquote?_quoted]
  dsimp only
  rw [decodeInside_covered, map_eq_pure_bind]
  simp [pure, Except.pure, bind, Except.bind]

/-! ### Marks outside quotes and brackets -/

/-- Behind the place `p`, no character of the text that `isMark` selects stands outside. -/
def Whole (isMark : Char → Bool) : Place → List Char → Prop
  | _, [] => True
  | p, c :: rest => (p.isOutside && isMark c) = false ∧ Whole isMark (p.next c) rest

section Cutting

variable {isMark : Char → Bool} {p : Place} {current rest : List Char}

theorem Whole.append (hu : Whole isMark p u) (hv : Whole isMark (u.foldl Place.next p) v) :
    Whole isMark p (u ++ v) := by
  induction u generalizing p with
  | nil => exact hv
  | cons c u ih => exact ⟨hu.1, ih hu.2 hv⟩

/-- A text without marks outside goes to the piece that is being read. -/
theorem cutOutside_append (h : Whole isMark p s) (current rest : List Char) :
    cutOutside isMark p current (s ++ rest) =
      cutOutside isMark (s.foldl Place.next p) (s.reverse ++ current) rest := by
  induction s generalizing p current with
  | nil => rfl
  | cons c s ih =>
    rw [List.cons_append, cutOutside, h.1, if_neg Bool.false_ne_true, ih h.2]
    simp

/-- A mark outside ends the piece. -/
theorem cutOutside_mark (hp : p.isOutside = true) (hc : isMark c = true) :
    cutOutside isMark p current (c :: rest) =
      (current.reverse :: ·) <$> cutOutside isMark p [] rest := by
  rw [cutOutside, hp, hc]
  rfl

theorem cutOutside_nil (hp : p.quoted = false) :
    cutOutside isMark p current [] = some [current.reverse] := by
  rw [cutOutside, hp]
  rfl

/-- A text without marks outside is one piece. -/
theorem cutOutside_whole (h : Whole isMark p s) (hp : (s.foldl Place.next p).quoted = false) :
    cutOutside isMark p [] s = some [s] := by
  have hcut := cutOutside_append h [] []
  rw [List.append_nil, List.append_nil, cutOutside_nil hp, List.reverse_reverse] at hcut
  exact hcut

end Cutting

section Literals

variable {p : Place}

/-- The inside of a literal is gone over without leaving the quotes. -/
theorem whole_covered (isMark : Char → Bool) (hp : p.quoted = true) (he : p.escaped = false)
    (s : List Char) :
    Whole isMark p (covered s) ∧ (covered s).foldl Place.next p = p := by
  have hin : ∀ {q : Place} {c : Char}, q.quoted = true → (q.isOutside && isMark c) = false := by
    intro q c hq
    simp [Place.isOutside, hq]
  induction s with
  | nil => exact ⟨trivial, rfl⟩
  | cons c s ih =>
    by_cases hc : c = '"' ∨ c = '\\'
    · have hback : (p.next '\\').next c = p := by
        obtain ⟨quoted, escaped, depth⟩ := p
        simp only at hp he
        subst hp he
        rfl
      have hnext : (p.next '\\').quoted = true := by simp [Place.next, hp, he]
      rw [covered_cons_of_special hc]
      simp only [Whole, List.foldl_cons, hback]
      exact ⟨⟨hin hp, hin hnext, ih.1⟩, ih.2⟩
    · have hself : p.next c = p := by
        rw [not_or] at hc
        simp [Place.next, hp, he, hc.1, hc.2]
      rw [covered_cons_of_plain hc]
      simp only [Whole, List.foldl_cons, hself]
      exact ⟨⟨hin hp, ih.1⟩, ih.2⟩

/-- A literal is gone over as a whole, and the place behind it is the one before it. -/
theorem whole_quoted {isMark : Char → Bool} (hmark : isMark '"' = false) (hp : p.quoted = false)
    (he : p.escaped = false) (s : String) :
    Whole isMark p (quoted s).toList ∧ (quoted s).toList.foldl Place.next p = p := by
  have hopen : p.next '"' = { p with quoted := true } := by simp [Place.next, hp]
  have hclose : ({ p with quoted := true } : Place).next '"' = p := by
    obtain ⟨quoted, escaped, depth⟩ := p
    simp only at hp he
    subst hp he
    rfl
  obtain ⟨hwhole, hplace⟩ := whole_covered (p := { p with quoted := true }) isMark rfl he
    s.toList
  rw [toList_quoted, List.foldl_cons, hopen, List.foldl_append, hplace]
  refine ⟨⟨by simp [hmark], ?_⟩, hclose⟩
  rw [hopen]
  refine hwhole.append ?_
  rw [hplace]
  exact ⟨by simp [Place.isOutside], trivial⟩

end Literals

section Brackets

/-- What opens and what closes brackets. -/
def isOpening (c : Char) : Bool := c == '[' || c == '('

def isClosing (c : Char) : Bool := c == ']' || c == ')'

/-- The brackets and parentheses that a text opens, less those that it closes. -/
def level (s : List Char) : Int :=
  (s.countP isOpening : Int) - s.countP isClosing

theorem level_append (u v : List Char) : level (u ++ v) = level u + level v := by
  simp only [level, List.countP_append]
  omega

theorem level_cons (c : Char) (s : List Char) : level (c :: s) = level [c] + level s :=
  level_append [c] s

/-- A text without brackets and parentheses. -/
theorem level_eq_zero (h : ∀ c ∈ s, isOpening c = false ∧ isClosing c = false) : level s = 0 := by
  have hopening : s.countP isOpening = 0 := List.countP_eq_zero.mpr fun c hc => by simp [(h c hc).1]
  have hclosing : s.countP isClosing = 0 := List.countP_eq_zero.mpr fun c hc => by simp [(h c hc).2]
  rw [level, hopening, hclosing]
  rfl

variable {isMark : Char → Bool} {p : Place}

theorem next_of_unquoted (hp : p.quoted = false) (hc : c ≠ '"') :
    p.next c = { p with depth := p.depth + level [c] } := by
  obtain ⟨quoted, escaped, depth⟩ := p
  obtain rfl : quoted = false := hp
  simp only [Place.next, beq_eq_false_iff_ne.mpr hc, Bool.false_eq_true, ↓reduceIte]
  split
  · rename_i hopen
    rcases (Bool.or_eq_true_iff.mp hopen).imp eq_of_beq eq_of_beq with rfl | rfl <;> rfl
  split
  · rename_i hclose
    rcases (Bool.or_eq_true_iff.mp hclose).imp eq_of_beq eq_of_beq with rfl | rfl <;> rfl
  · rename_i hopen hclose
    have hzero : level [c] = 0 := level_eq_zero fun d hd => by
      rw [List.mem_singleton.mp hd]
      exact ⟨Bool.eq_false_iff.mpr hopen, Bool.eq_false_iff.mpr hclose⟩
    rw [hzero, Int.add_zero]

/-- Outside quotes a text without quotes changes the depth alone. -/
theorem foldl_next_of_unquoted (hp : p.quoted = false) (hs : '"' ∉ s) :
    s.foldl Place.next p = { p with depth := p.depth + level s } := by
  induction s generalizing p with
  | nil =>
    have hzero : level [] = 0 := rfl
    rw [hzero, Int.add_zero]
    rfl
  | cons c s ih =>
    rw [List.mem_cons, not_or] at hs
    have hnext := next_of_unquoted hp (Ne.symm hs.1)
    have hq : (p.next c).quoted = false := by rw [hnext, hp]
    rw [List.foldl_cons, ih hq hs.2, hnext, level_cons c s, ← Int.add_assoc]

/-- A text without quotes all of whose marks stand between brackets. -/
theorem whole_of_inside (hp : p.quoted = false) (hs : '"' ∉ s)
    (h : ∀ (i : Nat) (c : Char), s[i]? = some c → isMark c = true → 0 < p.depth + level (s.take i)) :
    Whole isMark p s := by
  induction s generalizing p with
  | nil => trivial
  | cons c s ih =>
    rw [List.mem_cons, not_or] at hs
    have hnext := next_of_unquoted hp (Ne.symm hs.1)
    refine ⟨?_, ih (by rw [hnext, hp]) hs.2 fun i d hd hmark => ?_⟩
    · rw [Bool.and_eq_false_imp]
      intro hout
      cases hc : isMark c with
      | false => rfl
      | true =>
        have hpos := h 0 c rfl hc
        have hzero : level ((c :: s).take 0) = 0 := rfl
        simp only [Place.isOutside, hp, Bool.not_false, Bool.true_and, decide_eq_true_eq] at hout
        omega
    · have hpos := h (i + 1) d hd hmark
      rw [List.take_succ_cons, level_cons] at hpos
      rw [hnext]
      simp only
      omega

end Brackets

end CommandScript.Text
