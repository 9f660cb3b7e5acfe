import CommandScript.Proofs.Text.Trimmed
import CommandScript.Value

/-!
# Digits and the range of numbers

The range of signed 64-bit numbers by its bounds, the characters that numerals consist of, and decimal
digits: those of a number stand for that number again (`digits?_toDigits`), and behind a minus for a
negative one they are its text (`toList_toString`).
-/

namespace CommandScript

theorem int64?_eq_some {i : Int} {n : Int64} : int64? i = some n ↔ n.toInt = i := by
  unfold int64?
  constructor
  · intro h
    split at h
    · rename_i hi
      cases h
      exact Int64.toInt_ofInt_of_le hi.1 (Int.lt_of_le_sub_one hi.2)
    · cases h
  · rintro rfl
    rw [if_pos ⟨n.minValue_le_toInt, n.toInt_le⟩, Int64.ofInt_toInt]

theorem int64?_eq_none {i : Int} :
    int64? i = none ↔ ¬(Int64.minValue.toInt ≤ i ∧ i ≤ Int64.maxValue.toInt) := by
  unfold int64?
  split
  · exact iff_of_false nofun (not_not_intro ‹_›)
  · exact iff_of_true rfl ‹_›

theorem exists_int64?_iff {i : Int} :
    (∃ n, int64? i = some n) ↔ Int64.minValue.toInt ≤ i ∧ i ≤ Int64.maxValue.toInt := by
  rw [← Option.ne_none_iff_exists', ne_eq, int64?_eq_none, Classical.not_not]

namespace Text

variable {c : Char} {s : List Char}

theorem isDigit_iff : c.isDigit = true ↔ 48 ≤ c.toNat ∧ c.toNat ≤ 57 :=
  Char.isDigit_iff_toNat

theorem isAlphanum_of_isDigit (h : c.isDigit = true) : c.isAlphanum = true := by
  simp [Char.isAlphanum, h]

/-- The letters by their code points. -/
theorem isAlpha_iff : c.isAlpha = true ↔
    65 ≤ c.toNat ∧ c.toNat ≤ 90 ∨ 97 ≤ c.toNat ∧ c.toNat ≤ 122 := by
  have hupper : c.isUpper = true ↔ 65 ≤ c.toNat ∧ c.toNat ≤ 90 := decide_eq_true_iff
  have hlower : c.isLower = true ↔ 97 ≤ c.toNat ∧ c.toNat ≤ 122 :=
    Bool.and_eq_true_iff.trans (and_congr decide_eq_true_iff decide_eq_true_iff)
  exact Bool.or_eq_true_iff.trans (or_congr hupper hlower)

/-- The letters and digits by their code points. -/
theorem isAlphanum_iff : c.isAlphanum = true ↔
    (65 ≤ c.toNat ∧ c.toNat ≤ 90 ∨ 97 ≤ c.toNat ∧ c.toNat ≤ 122) ∨ 48 ≤ c.toNat ∧ c.toNat ≤ 57 := by
  rw [Char.isAlphanum, Bool.or_eq_true, isAlpha_iff, isDigit_iff]

theorem isAlpha_of_isDigit (h : c.isDigit = true) : c.isAlpha = false := by
  have hc := isDigit_iff.mp h
  rw [Bool.eq_false_iff, ne_eq, isAlpha_iff]
  omega

theorem isBlank_of_isAlphanum (h : c.isAlphanum = true) : isBlank c = false := by
  have hc := isAlphanum_iff.mp h
  simp only [isBlank, Bool.or_eq_false_iff, Bool.and_eq_false_iff, decide_eq_false_iff_not,
    beq_eq_false_iff_ne]
  omega

end Text

namespace Numeral

open Text

variable {c : Char} {s : List Char}

theorem digit?_of_isDigit (h : c.isDigit = true) : digit? 10 c = some (c.toNat - 48) := by
  have hc := isDigit_iff.mp h
  have hlt : c.toNat - 48 < 10 := by omega
  simp [digit?, h, hlt]

theorem digitsFrom_ten (high : Nat) (h : ∀ c ∈ s, c.isDigit = true) :
    digitsFrom 10 high s = some (Nat.ofDigitChars 10 s high) := by
  induction s generalizing high with
  | nil => rfl
  | cons c rest ih =>
    have hc := digit?_of_isDigit (h c List.mem_cons_self)
    simp only [digitsFrom, hc, Option.bind_eq_bind, Option.bind_some,
      ih _ fun d hd => h d (List.mem_cons_of_mem c hd)]
    rw [Nat.mul_comm]
    rfl

theorem isDigit_of_mem_toDigits {n : Nat} (h : c ∈ Nat.toDigits 10 n) : c.isDigit = true :=
  Nat.isDigit_of_mem_toDigits (by decide) (by decide) h

/-- The decimal digits of a number, the first one apart. -/
theorem exists_toDigits (n : Nat) : ∃ c rest, Nat.toDigits 10 n = c :: rest :=
  List.exists_cons_of_ne_nil Nat.toDigits_ne_nil

theorem digits?_toDigits (n : Nat) : digits? 10 (Nat.toDigits 10 n) = some n := by
  obtain ⟨c, rest, hn⟩ := exists_toDigits n
  have hdigits := digitsFrom_ten 0 fun d => isDigit_of_mem_toDigits (n := n)
  rw [Nat.ofDigitChars_toDigits (by decide) (by decide), hn] at hdigits
  rw [hn]
  exact hdigits

/-- No hexadecimal numeral consists of digits alone. -/
theorem hexDigits?_of_isDigit (h : ∀ c ∈ s, c.isDigit = true) : hexDigits? s = none := by
  unfold hexDigits?
  split
  · exact absurd (h 'x' (by simp)) (by decide)
  · exact absurd (h 'X' (by simp)) (by decide)
  · rfl

/-- The text of a number: a minus in front of a negative one and its digits. -/
theorem toList_toString (n : Int64) :
    (toString n).toList =
      (if n.toInt < 0 then ['-'] else []) ++ Nat.toDigits 10 n.toInt.natAbs := by
  have hn : toString n = n.toInt.repr := Int.toString_eq_repr
  rw [hn]
  rcases n.toInt with m | m
  · rw [if_neg (show ¬Int.ofNat m < 0 from Int.not_lt.mpr (Int.natCast_nonneg m))]
    simp [Int.repr, Nat.repr_eq_ofList_toDigits]
  · rw [if_pos (Int.negSucc_lt_zero m)]
    simp [Int.repr, Nat.repr_eq_ofList_toDigits]

end Numeral

end CommandScript
