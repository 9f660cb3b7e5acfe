import CommandScript.Proofs.Numeral
import Mathlib.Algebra.Group.Nat.Defs

/-!
# The grammar of numerals

A numeral is a sign, if any, and digits: decimal ones, or hexadecimal ones behind `0x` (`Spells`, `Body`).
What stands behind `0x` is read as signed digits of their own, so that the form of a text that is read
may have a second sign there (`Form`). Without one, every number of the range is read from its numerals
but the least, whose digits leave the range before they are negated (`integer?_eq_some_of_plain`). What is
read from a text at all is told by its form (`forms_of_readInteger`).
-/

namespace CommandScript

/-- What stands in front of a number. -/
inductive Sign where
  | none
  | plus
  | minus
  deriving DecidableEq

namespace Sign

def text : Sign → List Char
  | none => []
  | plus => ['+']
  | minus => ['-']

def apply : Sign → Int → Int
  | minus, n => -n
  | none, n | plus, n => n

end Sign

namespace Numeral

open Text

/-- The digits in the order of their values, with the letters in either case. -/
def digitTables : List String :=
  ["0123456789abcdef", "0123456789ABCDEF"]

/-- The character is the digit of value `d`. -/
def HasValue (c : Char) (d : Nat) : Prop :=
  ∃ table ∈ digitTables, table.toList[d]? = some c

instance (c : Char) (d : Nat) : Decidable (HasValue c d) :=
  inferInstanceAs (Decidable (∃ table ∈ digitTables, _))

/-- The digits spell a number in `base`: each counts as many powers of it as digits follow. -/
inductive Spells (base : Nat) : List Char → Nat → Prop
  | nil : Spells base [] 0
  | cons {c : Char} {s : List Char} {d n : Nat} (hd : d < base) (hc : HasValue c d)
      (hs : Spells base s n) : Spells base (c :: s) (d * base ^ s.length + n)

/-- A numeral without the sign in front: decimal digits, or `0x` and hexadecimal digits, in front of
which a second sign may stand. -/
inductive Body : Sign → Nat → List Char → Prop
  | decimal {s : List Char} {n : Nat} (hs : Spells 10 s n) (hne : s ≠ []) : Body .none n s
  | hexadecimal {x : Char} {second : Sign} {s : List Char} {n : Nat} (hx : x = 'x' ∨ x = 'X')
      (hs : Spells 16 s n) (hne : s ≠ []) : Body second n ('0' :: x :: (second.text ++ s))

/-- A numeral whose digits spell `n`, with the sign in front and a second one behind `0x`. -/
def Form (first second : Sign) (n : Nat) (s : List Char) : Prop :=
  ∃ body, s = first.text ++ body ∧ Body second n body

section Digits

variable {base : Nat} {c : Char} {s : List Char} {d n : Nat}

theorem HasValue.lt (h : HasValue c d) : d < 16 := by
  have hall : ∀ table ∈ digitTables, table.toList.length = 16 := by decide
  obtain ⟨table, ht, h⟩ := h
  exact hall table ht ▸ (List.getElem?_eq_some_iff.mp h).1

theorem HasValue.isAlphanum (h : HasValue c d) : c.isAlphanum = true := by
  have hall : ∀ table ∈ digitTables, table.toList.all Char.isAlphanum := by decide
  obtain ⟨table, ht, h⟩ := h
  exact List.all_eq_true.mp (hall table ht) c (List.mem_of_getElem? h)

theorem toNat_lt_of_digit? (h : digit? 16 c = some d) : c.toNat < 128 := by
  have hle (last : Char) (hlast : last.toNat < 128) (h : c ≤ last) : c.toNat < 128 :=
    Nat.lt_of_le_of_lt h hlast
  unfold digit? at h
  obtain ⟨h, -⟩ := Option.filter_eq_some_iff.mp h
  split at h
  · have := isDigit_iff.mp ‹_›
    omega
  split at h
  · exact hle 'f' (by decide) (And.right ‹_›)
  split at h
  · exact hle 'F' (by decide) (And.right ‹_›)
  · cases h

theorem digit?_sixteen : digit? 16 c = some d ↔ HasValue c d := by
  constructor
  · intro h
    -- a digit is an ASCII character, so that all of them can be tried
    have hall : ∀ n < 128, (digit? 16 (Char.ofNat n)).all (fun d => HasValue (Char.ofNat n) d) := by
      decide +kernel
    have hc := hall c.toNat (toNat_lt_of_digit? h)
    rw [Char.ofNat_toNat, h] at hc
    exact of_decide_eq_true hc
  · intro h
    have hall : ∀ table ∈ digitTables, ∀ d < 16, table.toList[d]?.bind (digit? 16) = some d := by
      decide +kernel
    have hlt := h.lt
    obtain ⟨table, ht, hc⟩ := h
    have hd := hall table ht d hlt
    rwa [hc] at hd

theorem digit?_eq_some (hbase : base ≤ 16) : digit? base c = some d ↔ d < base ∧ HasValue c d := by
  rw [← digit?_sixteen]
  unfold digit?
  simp only [Option.filter_eq_some_iff, decide_eq_true_eq]
  constructor
  · rintro ⟨h, hd⟩
    exact ⟨hd, h, by omega⟩
  · rintro ⟨hd, h, -⟩
    exact ⟨h, hd⟩

theorem Spells.isAlphanum (h : Spells base s n) : ∀ c ∈ s, c.isAlphanum = true := by
  induction h with
  | nil => exact nofun
  | cons _ hc _ ih =>
    intro c' hc'
    rcases List.mem_cons.mp hc' with rfl | hc'
    · exact hc.isAlphanum
    · exact ih c' hc'

theorem Spells.digitsFrom (h : Spells base s n) (hbase : base ≤ 16) (high : Nat) :
    digitsFrom base high s = some (high * base ^ s.length + n) := by
  induction h generalizing high with
  | nil => simp [Numeral.digitsFrom]
  | @cons c s d n hd hc _ ih =>
    have hvalue := (digit?_eq_some hbase).mpr ⟨hd, hc⟩
    simp only [Numeral.digitsFrom, hvalue, Option.bind_eq_bind, Option.bind_some, ih,
      List.length_cons, Nat.pow_succ]
    congr 1
    rw [Nat.add_mul, Nat.mul_assoc, Nat.mul_comm base, Nat.add_assoc]

theorem spells_of_digitsFrom (hbase : base ≤ 16) {high : Nat}
    (h : digitsFrom base high s = some n) :
    ∃ m, Spells base s m ∧ n = high * base ^ s.length + m := by
  induction s generalizing high with
  | nil =>
    cases h
    exact ⟨0, .nil, by simp⟩
  | cons c rest ih =>
    simp only [digitsFrom, Option.bind_eq_bind, Option.bind_eq_some_iff] at h
    obtain ⟨d, hd, h⟩ := h
    obtain ⟨hlt, hc⟩ := (digit?_eq_some hbase).mp hd
    obtain ⟨m, hm, rfl⟩ := ih h
    refine ⟨_, .cons hlt hc hm, ?_⟩
    rw [List.length_cons, Nat.pow_succ, Nat.add_mul, Nat.mul_assoc, Nat.mul_comm base, Nat.add_assoc]

theorem digitsFrom_zero (hbase : base ≤ 16) : digitsFrom base 0 s = some n ↔ Spells base s n := by
  constructor
  · intro h
    obtain ⟨m, hm, hn⟩ := spells_of_digitsFrom hbase h
    rw [Nat.zero_mul, Nat.zero_add] at hn
    exact hn ▸ hm
  · intro h
    rw [h.digitsFrom hbase, Nat.zero_mul, Nat.zero_add]

theorem digits?_eq_some (hbase : base ≤ 16) : digits? base s = some n ↔ s ≠ [] ∧ Spells base s n := by
  cases s with
  | nil => exact iff_of_false nofun fun h => h.1 rfl
  | cons c rest => exact (digitsFrom_zero hbase).trans (and_iff_right nofun).symm

theorem Spells.lt_pow (h : Spells base s n) : n < base ^ s.length := by
  induction h with
  | nil => exact Nat.zero_lt_one
  | @cons c s d n hd _ _ ih =>
    rw [List.length_cons, Nat.pow_succ']
    calc d * base ^ s.length + n < (d + 1) * base ^ s.length := by
          rw [Nat.add_mul, Nat.one_mul]
          omega
      _ ≤ base * base ^ s.length := Nat.mul_le_mul_right _ hd

theorem Spells.lt_of_length_le {k : Nat} (h : Spells base s n) (hbase : 0 < base) (hs : s.length ≤ k) :
    n < base ^ k :=
  Nat.lt_of_lt_of_le h.lt_pow (Nat.pow_le_pow_right hbase hs)

end Digits

section Signs

variable {first second : Sign} {base n : Nat} {c : Char} {s : List Char} {m : Int64}

theorem applySign_eq (sign : Sign) (i : Int) : applySign (sign == .minus) i = sign.apply i := by
  cases sign <;> rfl

theorem isBlank_of_mem_text (h : c ∈ first.text) : isBlank c = false := by
  cases first with
  | none => cases h
  | plus | minus =>
    rw [List.mem_singleton.mp h]
    rfl

/-- A letter or a digit is not taken for a sign. -/
theorem splitSign_append (sign : Sign) (hc : c.isAlphanum = true) :
    splitSign (sign.text ++ c :: s) = (sign == .minus, c :: s) := by
  cases sign with
  | plus => rfl
  | minus => rfl
  | none =>
    unfold splitSign
    split
    · rename_i h
      cases h
      exact absurd hc (by decide)
    · rename_i h
      cases h
      exact absurd hc (by decide)
    · rfl

theorem exists_sign (s : List Char) :
    ∃ sign rest, s = Sign.text sign ++ rest ∧ splitSign s = (sign == .minus, rest) := by
  unfold splitSign
  split
  · exact ⟨.minus, _, rfl, rfl⟩
  · exact ⟨.plus, _, rfl, rfl⟩
  · exact ⟨.none, _, rfl, rfl⟩

theorem signed?_of_spells (hbase : base ≤ 16) (h : Spells base s n) (hne : s ≠ []) (sign : Sign) :
    signed? base (sign.text ++ s) = int64? (sign.apply n) := by
  obtain ⟨c, rest, rfl⟩ := List.exists_cons_of_ne_nil hne
  rw [signed?, splitSign_append sign (h.isAlphanum c List.mem_cons_self)]
  dsimp only
  rw [(digits?_eq_some hbase).mpr ⟨hne, h⟩, ← applySign_eq]
  rfl

theorem spells_of_signed? (hbase : base ≤ 16) (h : signed? base s = some m) :
    ∃ sign t n, s = Sign.text sign ++ t ∧ t ≠ [] ∧ Spells base t n := by
  obtain ⟨sign, t, hs, hsplit⟩ := exists_sign s
  rw [signed?, hsplit] at h
  obtain ⟨n, hn, -⟩ := Option.bind_eq_some_iff.mp h
  obtain ⟨hne, hspells⟩ := (digits?_eq_some hbase).mp hn
  exact ⟨sign, t, n, hs, hne, hspells⟩

theorem Spells.isDigit (h : Spells 10 s n) : ∀ c ∈ s, c.isDigit = true := by
  have hall : ∀ d < 10, ∀ table ∈ digitTables, (table.toList[d]?).all Char.isDigit = true := by
    decide
  induction h with
  | nil => exact nofun
  | @cons _ _ d _ hd hc _ ih =>
    obtain ⟨table, ht, hc⟩ := hc
    have hdigit := hall d hd table ht
    rw [hc] at hdigit
    intro c' hc'
    rcases List.mem_cons.mp hc' with rfl | hc'
    · exact hdigit
    · exact ih c' hc'

theorem hexDigits?_eq_some {digits : List Char} : hexDigits? s = some digits ↔
    digits ≠ [] ∧ ∃ x, (x = 'x' ∨ x = 'X') ∧ s = '0' :: x :: digits := by
  constructor
  · intro h
    unfold hexDigits? at h
    split at h
    · cases h
      exact ⟨nofun, 'x', .inl rfl, rfl⟩
    · cases h
      exact ⟨nofun, 'X', .inr rfl, rfl⟩
    · cases h
  · rintro ⟨hne, x, hx, rfl⟩
    obtain ⟨c, rest, rfl⟩ := List.exists_cons_of_ne_nil hne
    rcases hx with rfl | rfl <;> rfl

theorem Body.magnitude? (h : Body second n s) : magnitude? s = int64? (second.apply n) := by
  cases h with
  | decimal hs hne =>
    rw [Numeral.magnitude?, hexDigits?_of_isDigit hs.isDigit, (digits?_eq_some (by decide)).mpr ⟨hne, hs⟩]
    rfl
  | @hexadecimal x _ s _ hx hs hne =>
    have hhex : hexDigits? ('0' :: x :: (second.text ++ s)) = some (second.text ++ s) :=
      hexDigits?_eq_some.mpr ⟨by simp [hne], x, hx, rfl⟩
    rw [Numeral.magnitude?, hhex]
    exact signed?_of_spells (by decide) hs hne second

theorem body_of_magnitude? (h : Numeral.magnitude? s = some m) : ∃ second n, Body second n s := by
  unfold Numeral.magnitude? at h
  split at h
  · rename_i digits hdigits
    obtain ⟨-, x, hx, rfl⟩ := hexDigits?_eq_some.mp hdigits
    obtain ⟨second, t, n, rfl, hne, hspells⟩ := spells_of_signed? (by decide) h
    exact ⟨second, n, .hexadecimal hx hspells hne⟩
  · obtain ⟨n, hn, -⟩ := Option.bind_eq_some_iff.mp h
    obtain ⟨hne, hspells⟩ := (digits?_eq_some (by decide)).mp hn
    exact ⟨.none, n, .decimal hspells hne⟩

/-- A body begins with a digit. -/
theorem Body.exists_cons (h : Body second n s) : ∃ c rest, s = c :: rest ∧ c.isAlphanum = true := by
  cases h with
  | decimal hs hne =>
    obtain ⟨c, rest, rfl⟩ := List.exists_cons_of_ne_nil hne
    exact ⟨c, rest, rfl, hs.isAlphanum c List.mem_cons_self⟩
  | hexadecimal => exact ⟨'0', _, rfl, by decide⟩

/-- Where no sign stands behind the first character there is no second sign. -/
theorem Form.second_eq_none (h : Form first second n s) (hplus : '+' ∉ s.tail)
    (hminus : '-' ∉ s.tail) : second = .none := by
  obtain ⟨body, rfl, hbody⟩ := h
  cases hbody with
  | decimal => rfl
  | hexadecimal =>
    cases second with
    | none => rfl
    | plus => exact absurd (by cases first <;> simp [Sign.text]) hplus
    | minus => exact absurd (by cases first <;> simp [Sign.text]) hminus

/-- A numeral has letters, digits and its signs. -/
theorem Body.of_mem (h : Body second n s) (hc : c ∈ s) : c ∈ second.text ∨ c.isAlphanum = true := by
  cases h with
  | decimal hs => exact .inr (hs.isAlphanum c hc)
  | hexadecimal hx hs =>
    rcases List.mem_cons.mp hc with rfl | hc
    · exact .inr (by decide)
    rcases List.mem_cons.mp hc with rfl | hc
    · rcases hx with rfl | rfl <;> exact .inr (by decide)
    · exact (List.mem_append.mp hc).imp_right (hs.isAlphanum c)

theorem Body.isAlphanum (h : Body .none n s) : ∀ c ∈ s, c.isAlphanum = true :=
  fun _ hc => (h.of_mem hc).resolve_left nofun

theorem Form.of_mem (h : Form first second n s) (hc : c ∈ s) :
    c ∈ first.text ∨ c ∈ second.text ∨ c.isAlphanum = true := by
  obtain ⟨body, rfl, hbody⟩ := h
  exact (List.mem_append.mp hc).imp_right hbody.of_mem

/-- Behind its first character a numeral without a second sign has letters and digits only. -/
theorem Form.isAlphanum (h : Form first .none n s) : ∀ c ∈ s.tail, c.isAlphanum = true := by
  obtain ⟨body, rfl, hbody⟩ := h
  intro c hc
  cases first with
  | none => exact hbody.isAlphanum c (List.mem_of_mem_tail hc)
  | plus | minus => exact hbody.isAlphanum c hc

theorem Form.trim_eq (h : Form first .none n s) : trim s = s := by
  obtain ⟨body, rfl, hbody⟩ := h
  refine trim_eq_self fun c hc => ?_
  rcases List.mem_append.mp hc with hc | hc
  · exact isBlank_of_mem_text hc
  · exact isBlank_of_isAlphanum (hbody.isAlphanum c hc)

theorem Form.integer? (h : Form first second n (trim s)) :
    integer? s = (int64? (second.apply n)).bind fun m => int64? (first.apply m.toInt) := by
  obtain ⟨body, hs, hbody⟩ := h
  have hmagnitude := hbody.magnitude?
  obtain ⟨c, rest, rfl, hc⟩ := hbody.exists_cons
  rw [Numeral.integer?, hs, splitSign_append first hc]
  dsimp only
  rw [hmagnitude]
  simp only [applySign_eq]
  rfl

theorem form_of_integer? (h : Numeral.integer? s = some m) :
    ∃ first second n, Form first second n (trim s) := by
  obtain ⟨first, body, hs, hsplit⟩ := exists_sign (trim s)
  rw [Numeral.integer?, hsplit] at h
  obtain ⟨magnitude, hmagnitude, -⟩ := Option.bind_eq_some_iff.mp h
  obtain ⟨second, n, hbody⟩ := body_of_magnitude? hmagnitude
  exact ⟨first, second, n, body, hs, hbody⟩

/-- The number behind the sign in front is taken first, and has to lie in the range itself. -/
theorem Form.integer?_eq_some (h : Form first second n (trim s)) : Numeral.integer? s = some m ↔
    (Int64.minValue.toInt ≤ second.apply n ∧ second.apply n ≤ Int64.maxValue.toInt) ∧
      m.toInt = first.apply (second.apply n) := by
  rw [h.integer?, ← exists_int64?_iff, Option.bind_eq_some_iff]
  constructor
  · rintro ⟨v, hv, hm⟩
    rw [int64?_eq_some.mp hv] at hm
    exact ⟨⟨v, hv⟩, int64?_eq_some.mp hm⟩
  · rintro ⟨⟨v, hv⟩, hm⟩
    rw [← int64?_eq_some.mp hv] at hm
    exact ⟨v, hv, int64?_eq_some.mpr hm⟩

/-- Without a second sign the digits are those of the number without its own sign, so that they leave
the range for the least number, and for that one only. -/
theorem Form.integer?_eq_some_iff_ne (h : Form first .none n (trim s)) (hm : m.toInt = first.apply n) :
    Numeral.integer? s = some m ↔ m ≠ Int64.minValue := by
  have hmin := m.minValue_le_toInt
  have hmax := m.toInt_le
  rw [h.integer?_eq_some, ne_eq, ← Int64.toInt_inj]
  rw [Int64.toInt_minValue] at hmin ⊢
  rw [Int64.toInt_maxValue] at hmax ⊢
  cases first <;> simp only [Sign.apply] at hm ⊢ <;> omega

theorem integer?_eq_some_of_plain
    (h : ∀ first second n, Form first second n (trim s) → second = .none) :
    integer? s = some m ↔ m ≠ Int64.minValue ∧
      ∃ sign n, Form sign .none n (trim s) ∧ m.toInt = sign.apply n := by
  constructor
  · intro hm
    obtain ⟨first, second, n, hform⟩ := form_of_integer? hm
    obtain rfl := h first second n hform
    obtain ⟨-, hvalue⟩ := hform.integer?_eq_some.mp hm
    exact ⟨(hform.integer?_eq_some_iff_ne hvalue).mp hm, first, n, hform, hvalue⟩
  · rintro ⟨hne, sign, n, hform, hvalue⟩
    exact (hform.integer?_eq_some_iff_ne hvalue).mpr hne

/-- The least number is not read where letters and digits stand behind the first character. -/
theorem ne_minValue_of_integer? (hblank : ∀ c ∈ s, isBlank c = false)
    (hs : ∀ c ∈ s.tail, c.isAlphanum = true) (h : integer? s = some m) : m ≠ Int64.minValue := by
  refine ((integer?_eq_some_of_plain fun first second n hform => ?_).mp h).1
  rw [trim_eq_self hblank] at hform
  exact hform.second_eq_none (fun hc => absurd (hs '+' hc) (by decide))
    fun hc => absurd (hs '-' hc) (by decide)

end Signs

/-- The number that is left to negate is the least one. -/
def NegatesLeast (s : List Char) : Prop :=
  ∃ body, splitSign (trim s) = (true, body) ∧ magnitude? body = some Int64.minValue

theorem negatesLeast_eq_true {s : List Char} : negatesLeast s = true ↔ NegatesLeast s := by
  unfold negatesLeast NegatesLeast
  rcases splitSign (trim s) with ⟨negative, body⟩
  simp only [Bool.and_eq_true, beq_iff_eq, Prod.mk.injEq]
  exact ⟨fun ⟨hnegative, hbody⟩ => ⟨body, ⟨hnegative, rfl⟩, hbody⟩,
    fun ⟨_, ⟨hnegative, hsame⟩, hbody⟩ => ⟨hnegative, hsame ▸ hbody⟩⟩

theorem negatesLeast_iff {s : List Char} :
    NegatesLeast s ↔ Form .minus .minus (2 ^ 63) (trim s) := by
  constructor
  · rintro ⟨body, hsplit, hbody⟩
    obtain ⟨first, body', hs, hsplit'⟩ := exists_sign (trim s)
    rw [hsplit, Prod.mk.injEq] at hsplit'
    obtain ⟨hminus, rfl⟩ := hsplit'
    obtain rfl : first = .minus := (beq_iff_eq.mp hminus.symm)
    obtain ⟨second, n, hform⟩ := body_of_magnitude? hbody
    rw [hform.magnitude?, int64?_eq_some, Int64.toInt_minValue] at hbody
    refine ⟨body, hs, ?_⟩
    cases second with
    | minus =>
      obtain rfl : n = 2 ^ 63 := by
        simp only [Sign.apply] at hbody
        omega
      exact hform
    | none | plus =>
      simp only [Sign.apply] at hbody
      omega
  · rintro ⟨body, hs, hbody⟩
    refine ⟨body, by rw [hs]; rfl, ?_⟩
    rw [hbody.magnitude?]
    rfl

section Reading

variable {raw type : String} {n : Int64} {f : Fault}

theorem refuse_ne_ok {α : Type} {a : α} : (refuse type raw : Checked α) ≠ .ok a := by
  unfold refuse
  split <;> nofun

theorem readInteger_eq_ok : readInteger raw = .ok n ↔ integer? raw.toList = some n := by
  unfold readInteger
  split
  · rename_i m hm
    rw [hm, Option.some.injEq, Except.ok.injEq]
  · rename_i hnone
    rw [hnone]
    exact iff_of_false refuse_ne_ok nofun

theorem eq_of_readInteger_error (hleast : ¬NegatesLeast raw.toList) (h : readInteger raw = .error f) :
    f = .cause .format s!"invalid integer '{raw}'" := by
  unfold readInteger at h
  split at h
  · cases h
  · unfold refuse at h
    rw [if_neg (mt negatesLeast_eq_true.mp hleast)] at h
    exact (Except.error.inj h).symm

end Reading

/-- What is read from a text that has no second sign, and what from one that has. A text without is a
number just if it is a numeral, and the number is the one it denotes, unless that is the least one; with
a second sign the number behind `0x` has to lie in the range, and so has what the sign in front makes of
it. One text alone is left out, where it is the least number that is negated; all others are refused by
one fault. -/
theorem forms_of_readInteger (raw : String) :
    ((∀ first second n, Form first second n (trim raw.toList) → second = .none) →
      ∀ v, readInteger raw = .ok v ↔ v ≠ Int64.minValue ∧
        ∃ sign n, Form sign .none n (trim raw.toList) ∧ v.toInt = sign.apply n) ∧
    (¬NegatesLeast raw.toList → ∀ first second n, second ≠ .none →
      Form first second n (trim raw.toList) → ∀ v, readInteger raw = .ok v ↔
        (Int64.minValue.toInt ≤ second.apply n ∧ second.apply n ≤ Int64.maxValue.toInt) ∧
          v.toInt = first.apply (second.apply n)) ∧
    (NegatesLeast raw.toList ↔ Form .minus .minus (2 ^ 63) (trim raw.toList)) ∧
    (¬NegatesLeast raw.toList → ∀ f, readInteger raw = .error f →
      f = .cause .format s!"invalid integer '{raw}'") := by
  refine ⟨fun hplain v => ?_, fun _ first second n _ h v => ?_, negatesLeast_iff,
    fun hleast f => eq_of_readInteger_error hleast⟩
  · rw [readInteger_eq_ok, integer?_eq_some_of_plain hplain]
  · rw [readInteger_eq_ok, h.integer?_eq_some]

/-- A blank, a minus, `0x` in small and a digit in capitals; a second sign; and no digit at all. -/
theorem forms_of_readInteger_signs : readInteger " -0x1F" = .ok (-31) ∧
    readInteger "0x-5" = .ok (-5) ∧
    readInteger "+" = .error (.cause .format "invalid integer '+'") := by
  have hspells : Spells 16 "1F".toList 31 := (digitsFrom_zero (by decide)).mp (by decide)
  have hleast {s : List Char} (h : negatesLeast s = false) : ¬NegatesLeast s :=
    mt negatesLeast_eq_true.mpr (by simp [h])
  have hfive : Spells 16 "5".toList 5 := (digitsFrom_zero (by decide)).mp (by decide)
  refine ⟨?_, ?_, ?_⟩
  · have hform : Form .minus .none 31 (trim " -0x1F".toList) :=
      ⟨"0x1F".toList, by decide, .hexadecimal (.inl rfl) hspells (by decide)⟩
    have hplain := fun first second n (h : Form first second n (trim " -0x1F".toList)) =>
      h.second_eq_none (by decide) (by decide)
    exact ((forms_of_readInteger " -0x1F").1 hplain (-31)).mpr ⟨by decide, .minus, 31, hform, by decide⟩
  · have hform : Form .none .minus 5 (trim "0x-5".toList) :=
      ⟨"0x-5".toList, by decide, .hexadecimal (.inl rfl) hfive (by decide)⟩
    exact ((forms_of_readInteger "0x-5").2.1 (hleast (by decide)) .none .minus 5 (by decide) hform
      (-5)).mpr (by decide)
  · obtain ⟨f, hf⟩ : ∃ f, readInteger "+" = .error f := ⟨_, rfl⟩
    rw [hf, (forms_of_readInteger "+").2.2.2 (hleast (by decide)) f hf]
    rfl

/-- A text with a sign behind `0x` is read although it is no numeral; the least number's own numeral is
not read; and there is a text whose reading negates the least number. -/
theorem signs_behind_prefix :
    (readInteger "0x-5" = .ok (-5) ∧ ∀ sign n, ¬Form sign .none n (trim "0x-5".toList)) ∧
    (Form .minus .none (2 ^ 63) (trim "-9223372036854775808".toList) ∧
      Sign.minus.apply (2 ^ 63 : Nat) = Int64.minValue.toInt ∧
      readInteger "-9223372036854775808" =
        .error (.cause .format "invalid integer '-9223372036854775808'")) ∧
    NegatesLeast "-0x-8000000000000000".toList := by
  have hspells : Spells 10 "9223372036854775808".toList (2 ^ 63) :=
    (digitsFrom_zero (by decide)).mp (by decide)
  refine ⟨⟨rfl, fun sign n h => ?_⟩, ⟨⟨_, rfl, .decimal hspells (by decide)⟩, rfl, rfl⟩, _, rfl, rfl⟩
  exact absurd (h.isAlphanum '-' (by decide)) (by decide)

end Numeral

/-!
## Numbers written out

In decimal digits and in hexadecimal ones behind `0x`, a number is written as a numeral with a minus if it
is negative (`form_toString`, `form_toHex`). Either is read back as that number, unless it is the least
one (`integer?_toString`, `readInteger_toHex`).
-/

/-- The sign that a number is written with. -/
def Sign.of (i : Int) : Sign :=
  if i < 0 then minus else none

theorem Sign.apply_of (i : Int) : (Sign.of i).apply i.natAbs = i := by
  unfold of
  split <;> simp only [apply] <;> omega

namespace Numeral

open Text

variable {base d n : Nat} {c : Char} {s : List Char} {m : Int64}

theorem Spells.concat (h : Spells base s n) (hd : d < base) (hc : HasValue c d) :
    Spells base (s ++ [c]) (n * base + d) := by
  induction h with
  | nil => simpa using Spells.cons hd hc .nil
  | @cons c' s d' n hd' hc' _ ih =>
    have hcons := Spells.cons hd' hc' ih
    rwa [List.length_append, List.length_singleton, Nat.pow_succ, ← Nat.mul_assoc, ← Nat.add_assoc,
      ← Nat.add_mul] at hcons

theorem hasValue_hexDigit (h : d < 16) : HasValue (hexDigit d) d := by
  have hall : ∀ d < 16, HasValue (hexDigit d) d := by decide
  exact hall d h

theorem spells_hexText (n : Nat) : Spells 16 (hexText n) n := by
  induction n using hexText.induct with
  | case1 n hn =>
    rw [hexText, if_pos hn]
    simpa using Spells.concat .nil hn (hasValue_hexDigit hn)
  | case2 n hn ih =>
    have hlow : n % 16 < 16 := Nat.mod_lt n (by decide)
    rw [hexText, if_neg hn]
    have h := ih.concat hlow (hasValue_hexDigit hlow)
    rwa [Nat.div_add_mod' n 16] at h

theorem spells_toDigits (n : Nat) : Spells 10 (Nat.toDigits 10 n) n :=
  ((digits?_eq_some (by decide)).mp (digits?_toDigits n)).2

theorem form_toString (m : Int64) : Form (.of m.toInt) .none m.toInt.natAbs (toString m).toList := by
  refine ⟨_, ?_, .decimal (spells_toDigits _) Nat.toDigits_ne_nil⟩
  rw [toList_toString, Sign.of]
  split <;> rfl

theorem hexText_ne_nil (n : Nat) : hexText n ≠ [] := by
  unfold hexText
  split <;> simp

theorem form_toHex (m : Int64) : Form (.of m.toInt) .none m.toInt.natAbs (toHex m).toList := by
  refine ⟨_, ?_, .hexadecimal (.inl rfl) (spells_hexText _) (hexText_ne_nil _)⟩
  unfold toHex Sign.of
  split <;> simp [Sign.text, toString]

theorem toString_ne_nil (m : Int64) : (toString m).toList ≠ [] := by
  rw [toList_toString]
  exact List.append_ne_nil_of_right_ne_nil _ Nat.toDigits_ne_nil

/-- A number is written with digits, and a minus perhaps. -/
theorem of_mem_toString (hc : c ∈ (toString m).toList) : c = '-' ∨ c.isDigit = true := by
  rw [toList_toString, List.mem_append] at hc
  rcases hc with hc | hc
  · split at hc
    · exact .inl (List.mem_singleton.mp hc)
    · cases hc
  · exact .inr (isDigit_of_mem_toDigits hc)

theorem ne_of_mem_toString {d : Char} (hminus : d ≠ '-') (hdigit : d.isDigit = false)
    (hc : c ∈ (toString m).toList) : c ≠ d := by
  rintro rfl
  rcases of_mem_toString hc with hc | hc
  · exact hminus hc
  · rw [hdigit] at hc
    cases hc

theorem isAlpha_of_mem_toString (hc : c ∈ (toString m).toList) : c.isAlpha = false := by
  rcases of_mem_toString hc with rfl | hc
  · decide
  · exact isAlpha_of_isDigit hc

theorem tight_toString (m : Int64) : Tight (toString m).toList := by
  refine tight_of_forall fun c hc => ?_
  rcases of_mem_toString hc with rfl | hc
  · decide
  · exact isBlank_of_isAlphanum (isAlphanum_of_isDigit hc)

theorem integer?_of_form (h : Form (.of m.toInt) .none m.toInt.natAbs s) :
    integer? s = some m ↔ m ≠ Int64.minValue := by
  rw [← h.trim_eq] at h
  exact h.integer?_eq_some_iff_ne (Sign.apply_of m.toInt).symm

theorem integer?_toString : integer? (toString m).toList = some m ↔ m ≠ Int64.minValue :=
  integer?_of_form (form_toString m)

theorem readInteger_toString : readInteger (toString m) = .ok m ↔ m ≠ Int64.minValue :=
  readInteger_eq_ok.trans integer?_toString

theorem readInteger_toHex : readInteger (toHex m) = .ok m ↔ m ≠ Int64.minValue :=
  readInteger_eq_ok.trans (integer?_of_form (form_toHex m))

end Numeral

end CommandScript
