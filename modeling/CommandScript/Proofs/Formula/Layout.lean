import CommandScript.Operand
import CommandScript.Proofs.Formula.Tree
import CommandScript.Proofs.Reference.Measure

/-!
# How the text of a formula is laid out

The reader passes over a space or a tab and takes a token from any other place (`lexFrom_cons`), so that the
text of a formula is the texts of its tokens in their order, with spaces and tabs between them
(`laid_of_lexFrom`). It has no characters but those of tokens and the blanks inside an index
(`Laid.of_mem`), a scan for relation signs goes over it (`Laid.passes`), and it opens as many brackets and
parentheses as it closes (`level_of_read`).
-/

namespace CommandScript

open Checked Text

theorem Operator.symbol_of_ofChar? {c : Char} {op : Operator} (h : ofChar? c = some op) :
    op.symbol = c :=
  eq_of_beq (List.find?_some (p := fun op : Operator => op.symbol == c) h)

/-- The text spells the token. -/
inductive Token.SpelledBy : Token → List Char → Prop
  | value {n : Int64} {c : Char} {run : List Char} (hc : c.isDigit = true ∨ c = '-')
      (hrun : ∀ d ∈ run, d.isAlphanum = true) (hn : Numeral.integer? (c :: run) = some n) :
      SpelledBy (.value n) (c :: run)
  | reference {r : Reference} {s : List Char} (h : Reference.read (String.ofList s) = .ok r) :
      SpelledBy (.reference r) s
  | operator (op : Operator) : SpelledBy (.operator op) [op.symbol]
  | opening : SpelledBy .opening ['(']
  | closing : SpelledBy .closing [')']

namespace Token

/-- What the token does to the count of open parentheses. -/
def level : Token → Int
  | opening => 1
  | closing => -1
  | _ => 0

/-- The parentheses that tokens open, less those that they close. -/
def levels : List Token → Int
  | [] => 0
  | t :: ts => t.level + levels ts

theorem levels_append (us vs : List Token) : levels (us ++ vs) = levels us + levels vs := by
  induction us with
  | nil => exact (Int.zero_add _).symm
  | cons t us ih => rw [List.cons_append, levels, levels, ih, Int.add_assoc]

variable {t : Token} {c : Char} {s : List Char}

theorem hasChar_of_value {run : List Char} (hc : c.isDigit = true ∨ c = '-')
    (hrun : ∀ d ∈ run, d.isAlphanum = true) : ∀ d ∈ c :: run, Index.HasChar d := by
  refine List.forall_mem_cons.mpr ⟨?_, fun d hd => .inl (by simp [isNameChar, hrun d hd])⟩
  rcases hc with hc | rfl
  · exact .inl (isNameChar_of_isDigit hc)
  · exact .inr (.inr (.inl rfl))

theorem isBlank_of_value {run : List Char} (hc : c.isDigit = true ∨ c = '-')
    (hrun : ∀ d ∈ run, d.isAlphanum = true) : ∀ d ∈ c :: run, isBlank d = false := by
  refine List.forall_mem_cons.mpr ⟨?_, fun d hd => isBlank_of_isAlphanum (hrun d hd)⟩
  rcases hc with hc | rfl
  · exact isBlank_of_isAlphanum (isAlphanum_of_isDigit hc)
  · decide

theorem isFormulaChar_of_hasChar (h : Index.HasChar c) :
    Operand.isFormulaChar c = true ∨ isBlank c = true := by
  rcases h with h | rfl | rfl | h
  · rcases Bool.or_eq_true_iff.mp h with h | h
    · exact .inl (by simp [Operand.isFormulaChar, h])
    · rw [eq_of_beq h]
      exact .inl (by decide)
  · exact .inl (by decide)
  · exact .inl (by decide)
  · exact .inr h

/-- The characters of a token are those of formulas and the blanks inside an index. -/
theorem SpelledBy.of_mem (h : t.SpelledBy s) (hc : c ∈ s) :
    Operand.isFormulaChar c = true ∨ isBlank c = true := by
  cases h with
  | value hfirst hrun => exact isFormulaChar_of_hasChar (hasChar_of_value hfirst hrun c hc)
  | reference h =>
    have hshaped := Reference.shaped_of_read h
    rw [String.toList_ofList] at hshaped
    have hmarks : ∀ d ∈ ['[', ']', '.'], Operand.isFormulaChar d = true :=
      List.all_iff_forall_prop.mp (by decide)
    rcases hshaped.of_mem hc with hc | hc
    · exact .inl (hmarks c hc)
    · exact isFormulaChar_of_hasChar hc
  | operator op =>
    rw [List.mem_singleton.mp hc]
    cases op <;> exact .inl (by decide)
  | opening | closing =>
    rw [List.mem_singleton.mp hc]
    exact .inl (by decide)

theorem SpelledBy.passes (h : t.SpelledBy s) : Relation.Passes s := by
  cases h with
  | value hfirst hrun =>
    exact Relation.passes_plain fun c hc => (hasChar_of_value hfirst hrun c hc).not_signal
  | reference h =>
    have hshaped := Reference.shaped_of_read h
    rw [String.toList_ofList] at hshaped
    exact hshaped.passes
  | operator op => cases op <;> exact Relation.passes_singleton (by decide)
  | opening | closing => exact Relation.passes_singleton (by decide)

theorem SpelledBy.level (h : t.SpelledBy s) : Text.level s = t.level := by
  cases h with
  | value hfirst hrun => exact level_eq_zero fun c hc => (hasChar_of_value hfirst hrun c hc).flat
  | reference h =>
    have hshaped := Reference.shaped_of_read h
    rw [String.toList_ofList] at hshaped
    exact hshaped.level
  | operator op => cases op <;> rfl
  | opening | closing => rfl

/-- How a token may begin. -/
theorem SpelledBy.head (h : t.SpelledBy s) : ∃ c rest, s = c :: rest ∧ c.isAlpha = false ∧
    c ≠ '!' ∧ c ≠ '"' := by
  cases h with
  | @value _ c run hc =>
    refine ⟨c, run, rfl, ?_⟩
    rcases hc with hc | rfl
    · exact ⟨isAlpha_of_isDigit hc, ne_of_apply_ne Char.isDigit (by rw [hc]; decide),
        ne_of_apply_ne Char.isDigit (by rw [hc]; decide)⟩
    · decide
  | reference h =>
    have hshaped := Reference.shaped_of_read h
    rw [String.toList_ofList] at hshaped
    cases hshaped with
    | mk => exact ⟨'$', _, rfl, by decide⟩
  | operator op => cases op <;> exact ⟨_, [], rfl, by decide⟩
  | opening | closing => exact ⟨_, [], rfl, by decide⟩

end Token

namespace Formula

/-- The text is the tokens in their order, between spaces and tabs. -/
inductive Laid : List Char → List Token → Prop
  | nil : Laid [] []
  | space {c : Char} {s : List Char} {ts : List Token} (hc : c = ' ' ∨ c = '\t') (h : Laid s ts) :
      Laid (c :: s) ts
  | token {t : Token} {u s : List Char} {ts : List Token} (ht : t.SpelledBy u) (h : Laid s ts) :
      Laid (u ++ s) (t :: ts)

section Lexing

variable {formula : String} {last : Option Token} {c : Char} {run s : List Char} {t : Token}
  {ts : List Token}

/-- The reader takes the token in front of the text, with `more` characters behind the first. -/
inductive Front (last : Option Token) : Char → List Char → Token → Nat → Prop
  | opening {rest} : Front last '(' rest .opening 0
  | closing {rest} : Front last ')' rest .closing 0
  | reference {rest r}
      (h : Reference.read (String.ofList (('$' :: rest).take (Reference.span ('$' :: rest)))) = .ok r) :
      Front last '$' rest (.reference r) (Reference.span ('$' :: rest) - 1)
  | number {c rest n}
      (hc : c.isDigit = true ∨ c = '-' ∧ startsWithDigit rest = true ∧ operandDue last = true)
      (hn : Numeral.integer? (c :: alphanumerics rest) = some n) :
      Front last c rest (.value n) (alphanumerics rest).length
  | operator {rest} (op : Operator)
      (hop : op = .sub → (startsWithDigit rest && operandDue last) = false) :
      Front last op.symbol rest (.operator op) 0

theorem lexFrom_skip (skip : Nat) (s : List Char) :
    lexFrom formula last skip s = lexFrom formula last 0 (s.drop skip) := by
  induction s generalizing skip with
  | nil => cases skip <;> rfl
  | cons c s ih =>
    cases skip with
    | zero => rfl
    | succ skip => exact ih skip

theorem push_ok {more : Nat} :
    (do return t :: (← lexFrom formula (some t) more s) : Checked (List Token)) = .ok ts ↔
      ∃ ts', lexFrom formula (some t) 0 (s.drop more) = .ok ts' ∧ ts = t :: ts' := by
  rw [lexFrom_skip, bind_ok]
  simp only [pure_ok, eq_comm (b := ts)]

/-- A digit or a minus is neither a blank nor a mark of another token. -/
theorem beq_eq_false_of_number (hc : c.isDigit = true ∨ c = '-') :
    ∀ d ∈ [' ', '\t', '(', ')', '$'], (c == d) = false := by
  have hmarks : ∀ d ∈ [' ', '\t', '(', ')', '$'], d.isDigit = false ∧ d ≠ '-' :=
    List.all_iff_forall_prop.mp (by decide)
  intro d hd
  refine beq_false_of_ne ?_
  rintro rfl
  obtain ⟨hdigit, hminus⟩ := hmarks c hd
  rcases hc with hc | hc
  · rw [hdigit] at hc
    cases hc
  · exact hminus hc

theorem Front.lexFrom_eq {more : Nat} (h : Front last c s t more)
    (hts : lexFrom formula (some t) 0 (s.drop more) = .ok ts) :
    lexFrom formula last 0 (c :: s) = .ok (t :: ts) := by
  have hpush := push_ok.mpr ⟨ts, hts, rfl⟩
  cases h with
  | opening | closing => exact hpush
  | reference hr => exact bind_ok.mpr ⟨_, hr, hpush⟩
  | @number c s n hc hn =>
    have hother := beq_eq_false_of_number (hc.imp_right And.left)
    have hnumber : (c.isDigit || c == '-' && startsWithDigit s && operandDue last) = true := by
      simpa [and_assoc] using hc
    have hread : readNumber (c :: alphanumerics s) = .ok (.value n) := by rw [readNumber, hn]
    simp only [lexFrom, hother ' ' (by decide), hother '\t' (by decide), hother '(' (by decide),
      hother ')' (by decide), hother '$' (by decide), hnumber, Bool.or_self, Bool.false_eq_true,
      ↓reduceIte]
    exact bind_ok.mpr ⟨_, hread, hpush⟩
  | operator op hop =>
    cases op with
    | sub =>
      have hnumber : ('-'.isDigit || '-' == '-' && startsWithDigit s && operandDue last) = false := by
        simpa using hop rfl
      change lexFrom formula last 0 ('-' :: s) = _
      simp only [lexFrom, hnumber]
      exact hpush
    | add | mul | div | rem => exact hpush

/-- A space or a tab in front is passed over; from any other text a token is taken. -/
theorem lexFrom_cons : lexFrom formula last 0 (c :: s) = .ok ts ↔
    (c = ' ' ∨ c = '\t') ∧ lexFrom formula last 0 s = .ok ts ∨
    ∃ t more ts', Front last c s t more ∧ lexFrom formula (some t) 0 (s.drop more) = .ok ts' ∧
      ts = t :: ts' := by
  constructor
  · intro h
    simp only [lexFrom] at h
    split at h
    · rename_i hspace
      exact .inl ⟨(Bool.or_eq_true_iff.mp hspace).imp eq_of_beq eq_of_beq, h⟩
    refine .inr ?_
    split at h
    · rename_i hc
      rw [eq_of_beq hc]
      exact ⟨_, _, _, .opening, (push_ok.mp h).choose_spec⟩
    split at h
    · rename_i hc
      rw [eq_of_beq hc]
      exact ⟨_, _, _, .closing, (push_ok.mp h).choose_spec⟩
    split at h
    · rename_i hc
      rw [eq_of_beq hc] at h ⊢
      rw [bind_ok] at h
      obtain ⟨r, hr, h⟩ := h
      exact ⟨_, _, _, .reference hr, (push_ok.mp h).choose_spec⟩
    split at h
    · rename_i hnumber
      rw [bind_ok] at h
      obtain ⟨number, hn, h⟩ := h
      simp only [Bool.or_eq_true, Bool.and_eq_true, beq_iff_eq, and_assoc] at hnumber
      unfold readNumber at hn
      split at hn
      · rename_i hvalue
        cases hn
        exact ⟨_, _, _, .number hnumber hvalue, (push_ok.mp h).choose_spec⟩
      · exact (fail_ok.mp hn).elim
    rename_i hnumber
    split at h
    · rename_i op hop
      rw [← Operator.symbol_of_ofChar? hop] at hnumber ⊢
      refine ⟨_, _, _, .operator op ?_, (push_ok.mp h).choose_spec⟩
      rintro rfl
      simpa [Operator.symbol] using hnumber
    · exact (fail_ok.mp h).elim
  · rintro (⟨hspace, h⟩ | ⟨t, more, ts', hfront, hts, rfl⟩)
    · rcases hspace with rfl | rfl <;> exact h
    · exact hfront.lexFrom_eq hts

theorem Front.spelledBy {more : Nat} (h : Front last c s t more) : t.SpelledBy (c :: s.take more) := by
  cases h with
  | opening => exact .opening
  | closing => exact .closing
  | reference h =>
    refine .reference ?_
    rwa [← List.take_succ_cons, Nat.sub_add_cancel (Reference.span_pos _)]
  | number hc hn =>
    rw [alphanumerics, take_takeWhile]
    exact .value (hc.imp_right And.left) (List.all_eq_true.mp List.all_takeWhile) hn
  | operator op => exact .operator op

theorem laid_of_lexFrom (h : lexFrom formula last 0 s = .ok ts) : Laid s ts := by
  induction hn : s.length using Nat.strongRecOn generalizing s last ts with
  | ind n ih =>
    cases s with
    | nil =>
      cases h
      exact .nil
    | cons c rest =>
      have hlt : ∀ more, (rest.drop more).length < n := by
        intro more
        rw [← hn, List.length_drop, List.length_cons]
        omega
      rcases lexFrom_cons.mp h with ⟨hspace, h⟩ | ⟨t, more, ts', hfront, hts', rfl⟩
      · exact .space hspace (ih _ (hlt 0) h rfl)
      · have hlaid := Laid.token hfront.spelledBy (ih _ (hlt more) hts' rfl)
        rwa [List.cons_append, List.take_append_drop] at hlaid

end Lexing

section Layout

variable {raw : String} {f : Formula} {c : Char} {s : List Char} {ts : List Token}

theorem Laid.of_mem (h : Laid s ts) (hc : c ∈ s) :
    Operand.isFormulaChar c = true ∨ isBlank c = true := by
  induction h with
  | nil => cases hc
  | space hspace _ ih =>
    rcases List.mem_cons.mp hc with rfl | hc
    · rcases hspace with rfl | rfl <;> exact .inr (by decide)
    · exact ih hc
  | token ht _ ih => exact (List.mem_append.mp hc).elim ht.of_mem ih

theorem Laid.passes (h : Laid s ts) : Relation.Passes s := by
  induction h with
  | nil => exact Relation.passes_plain nofun
  | @space c s ts hspace _ ih =>
    have hc : Relation.Passes [c] := by
      rcases hspace with rfl | rfl <;> exact Relation.passes_singleton (by decide)
    exact hc.append ih
  | token ht _ ih => exact ht.passes.append ih

theorem Laid.level (h : Laid s ts) : Text.level s = Token.levels ts := by
  induction h with
  | nil => rfl
  | @space c s ts hspace _ ih =>
    have hc : Text.level [c] = 0 := by rcases hspace with rfl | rfl <;> rfl
    rw [level_cons, hc, ih, Int.zero_add]
  | token ht _ ih => rw [level_append, ht.level, ih, Token.levels]

theorem Laid.head (h : Laid s ts) (hc : s.head? = some c) :
    c.isAlpha = false ∧ c ≠ '!' ∧ c ≠ '"' := by
  cases h with
  | nil => cases hc
  | space hspace =>
    cases hc
    rcases hspace with rfl | rfl <;> decide
  | token ht =>
    obtain ⟨d, rest, rfl, hd⟩ := ht.head
    cases hc
    exact hd

/-- A phrase closes the parentheses that it opens. -/
theorem Phrase.Forms.levels {p : Phrase} (h : p.Forms ts) : Token.levels ts = 0 := by
  induction h with
  | value | reference => rfl
  | parens _ ih =>
    rw [List.cons_append, Token.levels, Token.levels_append, ih]
    rfl
  | single _ ih => exact ih
  | joined op _ _ ihu ihv =>
    rw [Token.levels_append, Token.levels, ihu, ihv]
    rfl

theorem laid_of_read (h : read raw = .ok f) : Laid raw.toList f.tokens :=
  laid_of_lexFrom (read_iff.mp h).1

/-- A formula closes the brackets and parentheses that it opens. -/
theorem level_of_read (h : read raw = .ok f) : Text.level raw.toList = 0 := by
  rw [(laid_of_read h).level, (read_iff.mp h).2.1.levels]

end Layout

end Formula

end CommandScript
