import CommandScript.Proofs.Formula.Layout
import CommandScript.Proofs.Numeral.Grammar

/-!
# Formulas written out

Written out with one space between its tokens, a formula is read as the same tokens again
(`lex_rendering`). A minus that was read as an operator stands behind an operand, and one that belongs
to a literal stands where an operand is due; the check has seen to both, and in the text they stand as
they do among the tokens.
-/

namespace CommandScript

open Checked Text

namespace Token

/-- How a token is written. -/
def toText : Token → String
  | value n => toString n
  | reference r => r.toText
  | operator op => op.symbol.toString
  | opening => "("
  | closing => ")"

/-- The token can come from a text. -/
def Readable : Token → Prop
  | value n => n ≠ Int64.minValue
  | reference r => r.Writable
  | _ => True

end Token

namespace Formula

/-- The tokens in their order, with one space between two of them. -/
def rendering (ts : List Token) : String :=
  " ".intercalate (ts.map Token.toText)

/-! ### Tokens that come from a text -/

section Readable

variable {formula : String} {last : Option Token} {s : List Char} {t : Token} {ts : List Token}

theorem readable_of_spelledBy (h : t.SpelledBy s) : t.Readable := by
  cases h with
  | value hc hrun hn => exact Numeral.ne_minValue_of_integer? (Token.isBlank_of_value hc hrun) hrun hn
  | reference h => exact Reference.writable_of_read h
  | operator | opening | closing => trivial

theorem Laid.readable (h : Laid s ts) : ∀ t ∈ ts, t.Readable := by
  induction h with
  | nil => exact nofun
  | space _ _ ih => exact ih
  | token ht _ ih => exact List.forall_mem_cons.mpr ⟨readable_of_spelledBy ht, ih⟩

theorem readable_of_lexFrom (h : lexFrom formula last 0 s = .ok ts) :
    ∀ t ∈ ts, t.Readable :=
  (laid_of_lexFrom h).readable

end Readable

/-! ### Tokens that are written out -/

section Rendering

variable {formula : String} {last : Option Token} {rest : List Char} {t : Token} {ts : List Token}

/-- The tokens with a space in front of each. -/
def spaced (ts : List Token) : List Char :=
  ts.flatMap fun t => ' ' :: t.toText.toList

theorem head_spaced (ts : List Token) : ∀ c, (spaced ts).head? = some c → c = ' ' := by
  cases ts with
  | nil => exact nofun
  | cons t ts =>
    intro c hc
    cases hc
    rfl

theorem spaced_eq_rendering (h : ts ≠ []) : spaced ts = ' ' :: (rendering ts).toList := by
  induction ts with
  | nil => contradiction
  | cons t ts ih =>
    cases ts with
    | nil => simp [spaced, rendering]
    | cons u us =>
      have hus := ih (List.cons_ne_nil u us)
      simp only [spaced, rendering, List.flatMap_cons, List.map_cons, String.toList_intercalate] at hus ⊢
      rw [hus]
      simp [List.intercalate]

theorem lexFrom_space : lexFrom formula last 0 (' ' :: rest) = lexFrom formula last 0 rest := by
  simp [lexFrom]

/-- What follows a token is read behind the characters that belong to it. -/
theorem push_eq (formula : String) (t : Token) (more : Nat) (s : List Char) :
    (do return t :: (← lexFrom formula (some t) more s) : Checked (List Token)) =
      (t :: ·) <$> lexFrom formula (some t) 0 (s.drop more) := by
  rw [lexFrom_skip, map_eq_pure_bind]

theorem alphanumerics_append {run : List Char} (hrun : ∀ d ∈ run, d.isAlphanum = true)
    (hrest : ∀ c, rest.head? = some c → c = ' ') : alphanumerics (run ++ rest) = run := by
  rw [alphanumerics, List.takeWhile_append_of_pos hrun]
  cases rest with
  | nil => simp
  | cons c rest =>
    rw [hrest c rfl]
    simp

theorem readNumber_of_integer? {s : List Char} {n : Int64} (h : Numeral.integer? s = some n) :
    readNumber s = .ok (.value n) := by
  rw [readNumber, h]

/-- A number ends in front of a space. -/
theorem lexFrom_number {c : Char} {run : List Char}
    (hc : c.isDigit = true ∨ c = '-' ∧ startsWithDigit run = true ∧ operandDue last = true)
    (hrun : ∀ d ∈ run, d.isAlphanum = true) (hrest : ∀ c, rest.head? = some c → c = ' ')
    (ht : readNumber (c :: run) = .ok t) :
    lexFrom formula last 0 (c :: (run ++ rest)) = (t :: ·) <$> lexFrom formula (some t) 0 rest := by
  have hother : ∀ d ∈ [' ', '\t', '(', ')', '$'], (c == d) = false := by
    intro d hd
    refine beq_false_of_ne ?_
    rintro rfl
    rcases hc with hc | ⟨rfl, -⟩
    · simp only [List.mem_cons, List.not_mem_nil, or_false] at hd
      rcases hd with rfl | rfl | rfl | rfl | rfl <;> exact absurd hc (by decide)
    · exact absurd hd (by decide)
  have hnumber : (c.isDigit || c == '-' && startsWithDigit (run ++ rest) && operandDue last) = true := by
    rcases hc with hc | ⟨rfl, hstart, hdue⟩
    · simp [hc]
    · cases run with
      | nil => cases hstart
      | cons d run =>
        have hd : d.isDigit = true := hstart
        simp [startsWithDigit, hd, hdue]
  simp only [lexFrom, hother ' ' (by simp), hother '\t' (by simp), hother '(' (by simp),
    hother ')' (by simp), hother '$' (by simp), hnumber, alphanumerics_append hrun hrest, ht,
    Bool.or_self, Bool.false_eq_true, ↓reduceIte]
  have hmore := push_eq formula t run.length (run ++ rest)
  rw [List.drop_left] at hmore
  exact hmore

/-- A token in front of a space is read whole, if a literal stands where an operand is due. -/
theorem lexFrom_toText (ht : t.Readable) (hdue : ∀ n, t = .value n → operandDue last = true)
    (hrest : ∀ c, rest.head? = some c → c = ' ') :
    lexFrom formula last 0 (t.toText.toList ++ rest) =
      (t :: ·) <$> lexFrom formula (some t) 0 rest := by
  cases t with
  | value n =>
    have hread := Numeral.integer?_toString.mpr ht
    obtain ⟨d, ds, hn⟩ := Numeral.exists_toDigits n.toInt.natAbs
    have hdigits : ∀ c ∈ d :: ds, c.isDigit = true := fun c hc =>
      Numeral.isDigit_of_mem_toDigits (hn ▸ hc)
    have halnum : ∀ c ∈ d :: ds, c.isAlphanum = true := fun c hc =>
      isAlphanum_of_isDigit (hdigits c hc)
    rw [Numeral.toList_toString, hn] at hread
    rw [Token.toText, Numeral.toList_toString, hn]
    split at hread
    · rename_i hneg
      rw [if_pos hneg]
      exact lexFrom_number (.inr ⟨rfl, hdigits d List.mem_cons_self, hdue n rfl⟩) halnum hrest
        (readNumber_of_integer? hread)
    · rename_i hpos
      rw [if_neg hpos]
      exact lexFrom_number (.inl (hdigits d List.mem_cons_self))
        (fun c hc => halnum c (List.mem_cons_of_mem d hc)) hrest
        (readNumber_of_integer? hread)
  | reference r =>
    have hspan := Reference.Writable.span_toText (r := r) ht fun c hc => by
      rw [hrest c hc]
      decide
    have hread := Reference.Writable.read_toText (r := r) ht
    have hmore := push_eq formula (.reference r) (r.toText.toList.length - 1)
      ((r.toText.toList ++ rest).drop 1)
    rw [Token.toText]
    obtain ⟨body, hbody⟩ : ∃ body, r.toText.toList = '$' :: body := ⟨_, Reference.toList_toText r⟩
    have hwhole : String.ofList (('$' :: (body ++ rest)).take (body.length + 1)) = r.toText := by
      rw [List.take_succ_cons, List.take_left, ← hbody, String.ofList_toList]
    simp only [hbody, List.cons_append, List.length_cons, List.drop_succ_cons, List.drop_zero,
      Nat.add_sub_cancel, List.drop_left] at hspan hmore ⊢
    simp only [lexFrom, hspan, hwhole, hread]
    exact hmore
  | operator op =>
    have hstart : startsWithDigit rest = false := by
      cases rest with
      | nil => rfl
      | cons c rest =>
        rw [hrest c rfl]
        rfl
    cases op <;> simp [Token.toText, Operator.symbol, lexFrom, hstart] <;> rfl
  | opening => exact push_eq formula .opening 0 rest
  | closing => exact push_eq formula .closing 0 rest

/-- The check and the reader agree on where an operand is due. -/
theorem checkFrom_cons {due : Bool} {depth : Nat} (h : checkFrom due depth (t :: ts) = .ok ()) :
    (∀ n, t = .value n → due = true) ∧
      ∃ depth', checkFrom (operandDue (some t)) depth' ts = .ok () := by
  cases t with
  | value n | reference r =>
    cases due with
    | true => exact ⟨fun _ _ => rfl, depth, h⟩
    | false => exact (fail_ok.mp h).elim
  | operator op =>
    cases due with
    | true => exact (fail_ok.mp h).elim
    | false => exact ⟨nofun, depth, h⟩
  | opening =>
    cases due with
    | true => exact ⟨nofun, depth + 1, h⟩
    | false => exact (fail_ok.mp h).elim
  | closing =>
    cases due with
    | true => exact (fail_ok.mp h).elim
    | false =>
      cases depth with
      | zero => exact (fail_ok.mp h).elim
      | succ depth => exact ⟨nofun, depth, h⟩

/-- Tokens that the check accepts are read as they were written. -/
theorem lexFrom_spaced {depth : Nat} (h : checkFrom (operandDue last) depth ts = .ok ())
    (hts : ∀ t ∈ ts, t.Readable) : lexFrom formula last 0 (spaced ts) = .ok ts := by
  induction ts generalizing last depth with
  | nil => rfl
  | cons t ts ih =>
    obtain ⟨hdue, depth', hcheck⟩ := checkFrom_cons h
    obtain ⟨ht, hts⟩ := List.forall_mem_cons.mp hts
    calc lexFrom formula last 0 (spaced (t :: ts))
        = lexFrom formula last 0 (t.toText.toList ++ spaced ts) := lexFrom_space
      _ = (t :: ·) <$> lexFrom formula (some t) 0 (spaced ts) :=
          lexFrom_toText ht hdue (head_spaced ts)
      _ = .ok (t :: ts) := by
          rw [ih hcheck hts]
          rfl

theorem lex_rendering (h : check ts = .ok ()) (hts : ∀ t ∈ ts, t.Readable) :
    lex (rendering ts) = .ok ts := by
  have hne := (check_iff.mp h).ne_nil
  rw [check_eq_checkFrom hne] at h
  rw [lex, ← lexFrom_space, ← spaced_eq_rendering hne]
  exact lexFrom_spaced h hts

end Rendering

/-- The texts that are formulas: the check accepts the expressions and nothing else, a text is a
formula when its tokens are an expression, and a formula that is written out is read as the tokens it
has. -/
theorem read_spec :
    (∀ ts, check ts = .ok () ↔ Phrase.expression.Forms ts) ∧
    (∀ raw ts, (∃ f, read raw = .ok f ∧ f.tokens = ts) ↔
      lex raw = .ok ts ∧ Phrase.expression.Forms ts) ∧
    ∀ raw f, read raw = .ok f →
      ∃ g, read (rendering f.tokens) = .ok g ∧ g.tokens = f.tokens := by
  refine ⟨fun _ => check_iff, fun raw ts => ⟨?_, ?_⟩, fun raw f h => ?_⟩
  · rintro ⟨f, h, rfl⟩
    obtain ⟨hlex, hforms, -⟩ := read_iff.mp h
    exact ⟨hlex, hforms⟩
  · rintro ⟨hlex, hforms⟩
    exact ⟨⟨_, ts⟩, read_iff.mpr ⟨hlex, hforms, rfl⟩, rfl⟩
  · obtain ⟨hlex, hforms, -⟩ := read_iff.mp h
    have hlex' := lex_rendering (check_of_read h) (readable_of_lexFrom hlex)
    exact ⟨⟨String.ofList (trim (rendering f.tokens).toList), f.tokens⟩,
      read_iff.mpr ⟨hlex', hforms, rfl⟩, rfl⟩

theorem read_spec_minus :
    ∃ g, read (rendering [.value 2, .operator .sub, .value (-3), .operator .sub, .value 4]) = .ok g ∧
      g.tokens = [.value 2, .operator .sub, .value (-3), .operator .sub, .value 4] :=
  read_spec.2.2 " 2--3-4"
    ⟨"2--3-4", [.value 2, .operator .sub, .value (-3), .operator .sub, .value 4]⟩
    (ok_of_toOption (by decide +kernel))

end Formula

end CommandScript
