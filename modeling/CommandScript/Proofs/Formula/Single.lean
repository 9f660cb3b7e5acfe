import CommandScript.Proofs.Formula.Trimmed
import Mathlib.Data.List.TakeWhile

/-!
# Formulas of one token

A text without blanks at its ends that is one token spells it (`Laid.spelledBy`). So a formula is one
reference if and only if its text has the shape of one (`exists_reference_of_looksWhole`), and one literal
if and only if its text is a numeral (`eq_value_of_integer?`): a second sign, which a numeral may have
behind `0x`, ends the number there and leaves none in front of it. Such a formula comes to what its token
stands for (`evaluate_of_token`).
-/

namespace CommandScript.Formula

open Checked Text

section Lexing

variable {formula : String} {last : Option Token} {c : Char} {s : List Char} {t : Token}
  {ts : List Token} {p : Phrase}

theorem Laid.isBlank_of_nil (h : Laid s []) (hc : c ∈ s) : isBlank c = true := by
  generalize hts : ([] : List Token) = ts at h
  induction h with
  | nil => cases hc
  | space hspace _ ih =>
    rcases List.mem_cons.mp hc with rfl | hc
    · rcases hspace with rfl | rfl <;> decide
    · exact ih hc hts
  | token => cases hts

/-- Without blanks at its ends, the text of one token spells it. -/
theorem Laid.spelledBy (h : Laid s [t]) (hs : Tight s) : t.SpelledBy s := by
  cases h with
  | space hspace =>
    have hblank := hs.head _ rfl
    rcases hspace with rfl | rfl <;> cases hblank
  | @token _ u v _ ht h =>
    rcases List.eq_nil_or_concat v with rfl | ⟨v, c, rfl⟩
    · rwa [List.append_nil]
    · have hblank := hs.last c (by simp)
      rw [h.isBlank_of_nil (by simp)] at hblank
      cases hblank

theorem Laid.ne_nil (h : Laid s ts) (hts : ts ≠ []) : s ≠ [] := by
  cases h with
  | nil => contradiction
  | space => exact List.cons_ne_nil _ _
  | token ht =>
    obtain ⟨c, rest, rfl, -⟩ := ht.head
    exact List.cons_ne_nil _ _

theorem of_spelledBy_value {n : Int64} (h : (Token.value n).SpelledBy s) :
    Reference.looksWhole s = false ∧ Numeral.integer? s = some n ∧ ∀ c ∈ s, isBlank c = false := by
  cases h with
  | @value _ c run hc hrun hn =>
    refine ⟨?_, hn, Token.isBlank_of_value hc hrun⟩
    have hfirst : c ≠ '$' := by
      rintro rfl
      rcases hc with hc | hc <;> exact absurd hc (by decide)
    simp [Reference.looksWhole, hfirst]

theorem of_spelledBy_reference {r : Reference} (h : (Token.reference r).SpelledBy s) :
    Reference.looksWhole s = true ∧ Reference.read (String.ofList s) = .ok r := by
  cases h with
  | reference h =>
    have hshaped := Reference.shaped_of_read h
    rw [String.toList_ofList] at hshaped
    refine ⟨?_, h⟩
    rw [Reference.looksWhole, hshaped.span_eq]
    cases hshaped
    simp

/-- An expression is one literal, one reference, or has an operator or a parenthesis. -/
theorem Phrase.Forms.kinds (h : p.Forms ts) : (∃ n, ts = [.value n]) ∨ (∃ r, ts = [.reference r]) ∨
    ∃ t ∈ ts, t = .opening ∨ ∃ op, t = .operator op := by
  induction h with
  | value n => exact .inl ⟨n, rfl⟩
  | reference r => exact .inr (.inl ⟨r, rfl⟩)
  | parens => exact .inr (.inr ⟨.opening, by simp, .inl rfl⟩)
  | single _ ih => exact ih
  | joined op => exact .inr (.inr ⟨.operator op, by simp, .inr ⟨op, rfl⟩⟩)

theorem Laid.exists_mark (h : Laid s ts) (ht : t ∈ ts) (hmark : t = .opening ∨ ∃ op, t = .operator op) :
    ∃ c ∈ s, Operand.isFormulaMark c = true := by
  induction h with
  | nil => cases ht
  | space _ _ ih =>
    obtain ⟨c, hc, hm⟩ := ih ht
    exact ⟨c, List.mem_cons_of_mem _ hc, hm⟩
  | token hspelled _ ih =>
    rcases List.mem_cons.mp ht with rfl | ht
    · rcases hmark with rfl | ⟨op, rfl⟩
      · cases hspelled
        exact ⟨'(', by simp, by decide⟩
      · cases hspelled
        exact ⟨op.symbol, by simp, by cases op <;> decide⟩
    · obtain ⟨c, hc, hm⟩ := ih ht
      exact ⟨c, List.mem_append_right _ hc, hm⟩

/-- A text that has the shape of one reference has one token. -/
theorem exists_reference_of_looksWhole (h : lexFrom formula last 0 s = .ok ts)
    (hs : Reference.looksWhole s = true) : ∃ r, ts = [.reference r] := by
  obtain ⟨hhead, hspan⟩ := Bool.and_eq_true_iff.mp hs
  obtain ⟨rest, rfl⟩ := List.head?_eq_some_iff.mp (eq_of_beq hhead)
  obtain ⟨r, -, h⟩ := bind_ok.mp h
  obtain ⟨ts', hts', rfl⟩ := push_ok.mp h
  rw [eq_of_beq hspan, List.length_cons, Nat.add_sub_cancel, List.drop_length] at hts'
  cases hts'
  exact ⟨r, rfl⟩

theorem Front.of_number {more : Nat}
    (hc : c.isDigit = true ∨ c = '-' ∧ startsWithDigit s = true ∧ operandDue last = true)
    (h : Front last c s t more) :
    ∃ n, t = .value n ∧ Numeral.integer? (c :: alphanumerics s) = some n ∧
      more = (alphanumerics s).length := by
  have hmark : ∀ d, d.isDigit = false → d ≠ '-' → c ≠ d := by
    rintro d hdigit hminus rfl
    rcases hc with hc | hc
    · rw [hdigit] at hc
      cases hc
    · exact hminus hc.1
  cases h with
  | number _ hn => exact ⟨_, rfl, hn, rfl⟩
  | opening | closing | reference => exact absurd rfl (hmark _ (by decide) (by decide))
  | operator op hop =>
    cases op with
    | sub =>
      rcases hc with hc | ⟨-, hstart, hdue⟩
      · exact absurd hc (by decide)
      · have hnot := hop rfl
        rw [hstart, hdue] at hnot
        cases hnot
    | add | mul | div | rem => exact absurd rfl (hmark _ (by decide) (by decide))

/-- What stands in front of a second sign is no number. -/
theorem integer?_alphanumerics {first second : Sign} {k : Nat}
    (hform : Numeral.Form first second k (c :: s)) (hfirst : first ≠ .plus) (hsecond : second ≠ .none) :
    Numeral.integer? (c :: alphanumerics s) = none := by
  obtain ⟨body, hs, hbody⟩ := hform
  cases hbody with
  | decimal => contradiction
  | hexadecimal hx =>
    cases first with
    | plus => contradiction
    | none | minus =>
      cases hs
      cases second with
      | none => contradiction
      | plus | minus => rcases hx with rfl | rfl <;> rfl

theorem number_of_form {first second : Sign} {k : Nat} (hform : Numeral.Form first second k s)
    (hfirst : first ≠ .plus) : ∃ c rest, s = c :: rest ∧
      (c.isDigit = true ∨ c = '-' ∧ startsWithDigit rest = true ∧ operandDue none = true) := by
  obtain ⟨body, rfl, hbody⟩ := hform
  have hdigit : ∃ c rest, body = c :: rest ∧ c.isDigit = true := by
    cases hbody with
    | decimal hs hne =>
      obtain ⟨c, rest, rfl⟩ := List.exists_cons_of_ne_nil hne
      exact ⟨c, rest, rfl, hs.isDigit c List.mem_cons_self⟩
    | hexadecimal => exact ⟨'0', _, rfl, by decide⟩
  obtain ⟨c, rest, rfl, hc⟩ := hdigit
  cases first with
  | none => exact ⟨c, rest, rfl, .inl hc⟩
  | plus => contradiction
  | minus => exact ⟨'-', c :: rest, rfl, .inr ⟨rfl, hc, rfl⟩⟩

theorem eq_value_of_form {first second : Sign} {k : Nat} {n : Int64}
    (hform : Numeral.Form first second k s) (hfirst : first ≠ .plus) (hn : Numeral.integer? s = some n)
    (h : lexFrom formula none 0 s = .ok ts) : ts = [.value n] := by
  obtain ⟨c, rest, rfl, hc⟩ := number_of_form hform hfirst
  rcases lexFrom_cons.mp h with ⟨hspace, -⟩ | ⟨t, more, ts', hfront, hts', rfl⟩
  · have hblank : isBlank c = true := by rcases hspace with rfl | rfl <;> decide
    rcases hc with hc | ⟨rfl, -⟩
    · rw [isBlank_of_isAlphanum (isAlphanum_of_isDigit hc)] at hblank
      cases hblank
    · exact absurd hblank (by decide)
  obtain ⟨m, rfl, hm, rfl⟩ := hfront.of_number hc
  by_cases hsecond : second = .none
  · subst hsecond
    have hrun : alphanumerics rest = rest := List.takeWhile_eq_self_iff.mpr hform.isAlphanum
    rw [hrun, hn] at hm
    rw [hrun, List.drop_length] at hts'
    cases hm
    cases hts'
    rfl
  · rw [integer?_alphanumerics hform hfirst hsecond] at hm
    cases hm

theorem eq_value_of_integer? {n : Int64} (h : lexFrom formula none 0 s = .ok ts)
    (hcheck : check ts = .ok ()) (hs : Tight s) (hn : Numeral.integer? s = some n) : ts = [.value n] := by
  obtain ⟨first, second, k, hform⟩ := Numeral.form_of_integer? hn
  rw [hs.trim_eq] at hform
  refine eq_value_of_form hform ?_ hn h
  rintro rfl
  obtain ⟨body, rfl, -⟩ := hform
  obtain ⟨ts', -, rfl⟩ := push_ok.mp h
  exact fail_ok.mp hcheck

end Lexing

section Evaluation

variable {n : Type → Type} [Monad n] [LawfulMonad n] {look : Reference → ExceptT Fault n Int64}

/-- A fault that is put into other words is a fault still. -/
theorem toOption_tryCatch {α : Type} (x : ExceptT Fault n α) (g : Fault → Fault) :
    Except.toOption <$> (tryCatch x fun e => throw (g e)).run = Except.toOption <$> x.run := by
  rw [ExceptT.run_tryCatch, map_bind, map_eq_pure_bind]
  refine bind_congr fun r => ?_
  cases r <;> simp [Except.toOption]

/-- A formula of one operand comes to what the operand stands for. -/
theorem evaluate_of_token {f : Formula} {t : Token} {x : ExceptT Fault n Int64} (hf : f.tokens = [t])
    (ht : lookedUp look t = .value <$> x) (hoperand : t ≠ .opening ∧ t ≠ .closing) :
    Except.toOption <$> (f.evaluate look).run = Except.toOption <$> x.run := by
  have htokens : reduceTokens look [t] = x := by
    rw [reduceTokens, List.mapM_cons, ht]
    simp only [List.mapM_nil, map_eq_pure_bind, bind_assoc, pure_bind]
    exact bind_pure x
  have hfrom : f.evaluate look = tryCatch (reduceTokens look [t]) fun e =>
      throw (if e.kind = .incomplete then .framed f.text e else e) := by
    rw [evaluate, hf]
    cases t with
    | opening => exact absurd rfl hoperand.1
    | closing => exact absurd rfl hoperand.2
    | value | reference | operator => rfl
  rw [hfrom, htokens]
  exact toOption_tryCatch x _

end Evaluation

end CommandScript.Formula
