import CommandScript.Formula
import CommandScript.Proofs.Numeral

/-!
# Arithmetic is exact

`Operator.Results` says what an operator makes of two integers of any size. Where the result is a signed
64-bit number, an operation gives that very number (`Operator.apply_eq_ok`), and otherwise it is an
overflow; the one result in the range that is refused is the remainder of the least number by minus one,
whose quotient leaves the range (`Operator.Refused`).
-/

namespace CommandScript

namespace Operator

/-- What the operator makes of two integers. A quotient is cut toward zero: in size it is the whole
quotient of the sizes. A remainder is smaller in size than the divisor and on the side of zero that the
dividend is on, and the rest of the dividend is a multiple of the divisor. -/
def Results : Operator → Int → Int → Int → Prop
  | add, a, b, c => c = a + b
  | sub, a, b, c => c = a - b
  | mul, a, b, c => c = a * b
  | div, a, b, c =>
    b ≠ 0 ∧ c.natAbs = a.natAbs / b.natAbs ∧ (0 ≤ a * b → 0 ≤ c) ∧ (a * b ≤ 0 → c ≤ 0)
  | rem, a, b, c => b ≠ 0 ∧ c.natAbs < b.natAbs ∧ b ∣ a - c ∧ (0 ≤ a → 0 ≤ c) ∧ (a ≤ 0 → c ≤ 0)

/-- The operation asks for a division by zero, which has no result. -/
def DividesByZero (op : Operator) (b : Int64) : Prop :=
  b = 0 ∧ (op = div ∨ op = rem)

instance (op : Operator) (b : Int64) : Decidable (op.DividesByZero b) :=
  inferInstanceAs (Decidable (_ ∧ _))

/-- The operation whose result lies in the range and is refused all the same. -/
def Refused (op : Operator) (a b : Int64) : Prop :=
  op = rem ∧ a = Int64.minValue ∧ b = -1

section Exact

variable {op : Operator} {a b c : Int}

theorem tdiv_nonneg_of_mul (h : 0 ≤ a * b) : 0 ≤ a.tdiv b := by
  rcases Int.lt_trichotomy a 0 with ha | rfl | ha
  · rcases Int.le_total b 0 with hb | hb
    · exact Int.tdiv_nonneg_of_nonpos_of_nonpos (by omega) hb
    · have hmul : 0 < b → a * b < 0 := Int.mul_neg_of_neg_of_pos ha
      obtain rfl : b = 0 := by omega
      simp
  · simp
  · rcases Int.le_total 0 b with hb | hb
    · exact Int.tdiv_nonneg (by omega) hb
    · have hmul : b < 0 → a * b < 0 := Int.mul_neg_of_pos_of_neg ha
      obtain rfl : b = 0 := by omega
      simp

theorem tdiv_nonpos_of_mul (h : a * b ≤ 0) : a.tdiv b ≤ 0 := by
  have hneg : 0 ≤ (-a).tdiv b := tdiv_nonneg_of_mul (by rw [Int.neg_mul]; omega)
  rw [Int.neg_tdiv] at hneg
  omega

/-- A number is known by its size and the side of zero it is on. -/
theorem results_div : div.Results a b c ↔ b ≠ 0 ∧ a.tdiv b = c := by
  have hsize : (a.tdiv b).natAbs = a.natAbs / b.natAbs := Int.natAbs_tdiv a b
  constructor
  · rintro ⟨hb, hc, hpos, hneg⟩
    have hup := tdiv_nonneg_of_mul (a := a) (b := b)
    have hdown := tdiv_nonpos_of_mul (a := a) (b := b)
    generalize a.tdiv b = q at hsize hup hdown ⊢
    generalize a * b = m at hpos hneg hup hdown
    exact ⟨hb, by omega⟩
  · rintro ⟨hb, rfl⟩
    exact ⟨hb, hsize, tdiv_nonneg_of_mul, tdiv_nonpos_of_mul⟩

/-- Two remainders on one side of zero differ by less than the divisor. -/
theorem results_rem : rem.Results a b c ↔ b ≠ 0 ∧ a.tmod b = c := by
  have hup : 0 ≤ a → 0 ≤ a.tmod b := Int.tmod_nonneg b
  have hdown (ha : a ≤ 0) : a.tmod b ≤ 0 := by
    have h : 0 ≤ (-a).tmod b := Int.tmod_nonneg b (by omega)
    rw [Int.neg_tmod] at h
    omega
  have hdvd : b ∣ a - a.tmod b := Int.dvd_self_sub_tmod
  have hlt (hb : b ≠ 0) : (a.tmod b).natAbs < b.natAbs := by
    rw [Int.natAbs_tmod]
    exact Nat.mod_lt _ (by omega)
  constructor
  · rintro ⟨hb, hsize, hc, hpos, hneg⟩
    have hlt := hlt hb
    generalize a.tmod b = r at hup hdown hdvd hlt ⊢
    have hdiff : b ∣ r - c := by
      have h := Int.dvd_sub hc hdvd
      rwa [show a - c - (a - r) = r - c by omega] at h
    have hzero := Int.eq_zero_of_dvd_of_natAbs_lt_natAbs hdiff (by omega)
    exact ⟨hb, by omega⟩
  · rintro ⟨hb, rfl⟩
    exact ⟨hb, hlt hb, hdvd, hup, hdown⟩

/-- An operator has one result at most, and has none only where it divides by zero. -/
theorem results_iff : op.Results a b c ↔ ¬(b = 0 ∧ (op = div ∨ op = rem)) ∧ op.exact a b = c := by
  cases op with
  | add | sub | mul => simp [Results, exact, eq_comm]
  | div => simp [results_div, exact]
  | rem => simp [results_rem, exact]

instance (op : Operator) (a b c : Int) : Decidable (op.Results a b c) :=
  decidable_of_iff _ results_iff.symm

end Exact

section Apply

variable {op : Operator} {a b v : Int64} {c : Int} {f : Fault}

theorem results_toInt_iff :
    op.Results a.toInt b.toInt c ↔ ¬op.DividesByZero b ∧ op.exact a.toInt b.toInt = c := by
  have hzero : b.toInt = 0 ↔ b = 0 := Int64.toInt_inj (y := 0)
  rw [results_iff, hzero, DividesByZero]

theorem results_exact (h : ¬op.DividesByZero b) :
    op.Results a.toInt b.toInt (op.exact a.toInt b.toInt) :=
  results_toInt_iff.mpr ⟨h, rfl⟩

theorem apply_of_dividesByZero (h : op.DividesByZero b) :
    op.apply a b = .error (.cause .divideByZero s!"{a} {op.symbol} 0") :=
  if_pos h

theorem apply_of_refused (h : op.Refused a b) :
    op.apply a b = .error (.cause .runtime s!"overflow in {a} {op.symbol} {b}") := by
  obtain ⟨rfl, rfl, rfl⟩ := h
  rfl

/-- Elsewhere the result decides. -/
theorem apply_of_results (h : op.Results a.toInt b.toInt c) (hrefused : ¬op.Refused a b) :
    op.apply a b = match int64? c with
      | some v => .ok v
      | none => .error (.cause .runtime s!"overflow in {a} {op.symbol} {b}") := by
  obtain ⟨hzero, rfl⟩ := results_toInt_iff.mp h
  have hquotient : ¬(op = rem ∧ quotientOverflows a b = true) := by
    rwa [show quotientOverflows a b = true ↔ a = Int64.minValue ∧ b = -1 by simp [quotientOverflows]]
  unfold DividesByZero at hzero
  unfold apply
  rw [if_neg hzero, if_neg hquotient]
  rfl

theorem apply_eq_ok : op.apply a b = .ok v ↔
    op.Results a.toInt b.toInt v.toInt ∧ ¬op.Refused a b := by
  constructor
  · intro h
    by_cases hzero : op.DividesByZero b
    · rw [apply_of_dividesByZero hzero] at h
      cases h
    by_cases hrefused : op.Refused a b
    · rw [apply_of_refused hrefused] at h
      cases h
    have hresult := results_exact (a := a) hzero
    rw [apply_of_results hresult hrefused] at h
    split at h
    · rename_i w hw
      cases h
      rw [int64?_eq_some.mp hw]
      exact ⟨hresult, hrefused⟩
    · cases h
  · rintro ⟨hresult, hrefused⟩
    rw [apply_of_results hresult hrefused, int64?_eq_some.mpr rfl]

theorem apply_eq_error : op.apply a b = .error f ↔
    op.DividesByZero b ∧ f = .cause .divideByZero s!"{a} {op.symbol} 0" ∨
      ((∃ c, op.Results a.toInt b.toInt c ∧
          ¬(Int64.minValue.toInt ≤ c ∧ c ≤ Int64.maxValue.toInt)) ∨ op.Refused a b) ∧
        f = .cause .runtime s!"overflow in {a} {op.symbol} {b}" := by
  constructor
  · intro h
    by_cases hzero : op.DividesByZero b
    · rw [apply_of_dividesByZero hzero] at h
      exact .inl ⟨hzero, (Except.error.inj h).symm⟩
    refine .inr ?_
    by_cases hrefused : op.Refused a b
    · rw [apply_of_refused hrefused] at h
      exact ⟨.inr hrefused, (Except.error.inj h).symm⟩
    have hresult := results_exact (a := a) hzero
    rw [apply_of_results hresult hrefused] at h
    split at h
    · cases h
    · rename_i hnone
      exact ⟨.inl ⟨_, hresult, int64?_eq_none.mp hnone⟩, (Except.error.inj h).symm⟩
  · rintro (⟨hzero, rfl⟩ | ⟨⟨c, hresult, hrange⟩ | hrefused, rfl⟩)
    · exact apply_of_dividesByZero hzero
    · by_cases hrefused : op.Refused a b
      · exact apply_of_refused hrefused
      · rw [apply_of_results hresult hrefused, int64?_eq_none.mpr hrange]
    · exact apply_of_refused hrefused

/-- An operation fails where nothing may be divided, and where its result leaves the range. -/
theorem apply_error (h : op.apply a b = .error f) :
    f = .cause .divideByZero s!"{a} {op.symbol} 0" ∨
      f = .cause .runtime s!"overflow in {a} {op.symbol} {b}" :=
  (apply_eq_error.mp h).imp And.right And.right

end Apply

end Operator

end CommandScript
