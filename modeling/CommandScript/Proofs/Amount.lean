import CommandScript.Amount
import CommandScript.Proofs.Numeral.Grammar
import CommandScript.Proofs.Reference
import CommandScript.Proofs.Text.Bytes

/-!
# The grammar of dollar amounts

`Amount.Written` says which texts are amounts and of how many cents. The reader takes marks off the front
as long as they are new (`Took.takeMarks`), cuts what is left at its first point and holds lengths in
bytes against their bounds. Digits and marks are single bytes, so for a text that passes these are the
lengths in characters, and seven digits are too few to leave the range (`written_of_read`).
-/

namespace CommandScript

namespace Text

theorem utf8Size_of_isAlphanum {c : Char} (h : c.isAlphanum = true) : c.utf8Size = 1 := by
  have hc := isAlphanum_iff.mp h
  refine Char.utf8Size_eq_one_iff.mpr (UInt32.le_iff_toNat_le.mpr ?_)
  change c.toNat ≤ 127
  omega

end Text

namespace Amount

open Text Numeral

/-- What may stand in front of the dollars: a dollar sign and a sign in either order, or one of them, or
neither. -/
def Front (sign : Sign) (front : List Char) : Prop :=
  ∃ dollar, (dollar = [] ∨ dollar = ['$']) ∧
    (front = dollar ++ sign.text ∨ front = sign.text ++ dollar)

/-- The text is an amount of so many cents. -/
inductive Written : List Char → Int → Prop
  | mk {sign : Sign} {front dollars cents : List Char} {whole part : Nat} (hfront : Front sign front)
      (hdollars : Spells 10 dollars whole) (hfive : dollars.length ≤ 5) (hcents : Spells 10 cents part)
      (htwo : cents.length = 2) :
      Written (front ++ dollars ++ '.' :: cents) (sign.apply (100 * whole + part : Nat))

section Marks

variable {seen : Marks} {sign : Sign} {front s : List Char} {n : Bool}

theorem takeMarks_eq_self (h : ∀ c, s.head? = some c → c ≠ '$' ∧ c ≠ '-' ∧ c ≠ '+') :
    takeMarks seen s = (seen, s) := by
  cases s with
  | nil => rfl
  | cons c s =>
    obtain ⟨hdollar, hminus, hplus⟩ := h c rfl
    simp [takeMarks, hdollar, hminus, hplus]

theorem takeMarks_append (h : Front sign front)
    (hs : ∀ c, s.head? = some c → c ≠ '$' ∧ c ≠ '-' ∧ c ≠ '+') :
    ∃ marks, takeMarks {} (front ++ s) = (marks, s) ∧ marks.negative = (sign == .minus) := by
  have hself (seen) : takeMarks seen s = (seen, s) := takeMarks_eq_self hs
  obtain ⟨dollar, rfl | rfl, rfl | rfl⟩ := h <;> cases sign <;>
    simp [takeMarks, Sign.text, hself]

/-- What has been taken off the front, where `seen` says which marks are no longer new. -/
structure Took (seen : Marks) (sign : Sign) (front : List Char) : Prop where
  isFront : Front sign front
  newDollar : seen.dollar = false → front = sign.text
  newSign : seen.sign = false → sign = .none
  negative : seen.negative = (sign == .minus)

theorem Took.takeDollar (h : Took seen sign front) (hnew : seen.dollar = false) :
    Took { seen with dollar := true } sign (front ++ ['$']) where
  isFront := ⟨['$'], .inr rfl, .inr (by rw [h.newDollar hnew])⟩
  newDollar := by simp
  newSign := h.newSign
  negative := h.negative

theorem Took.takeSign (h : Took seen sign front) (hnew : seen.sign = false) (next : Sign) :
    Took { seen with sign := true, negative := next == .minus } next (front ++ next.text) := by
  obtain rfl := h.newSign hnew
  obtain ⟨dollar, hdollar, hfront⟩ := h.isFront
  have hfront : front = dollar := by simpa [Sign.text] using hfront
  exact {
    isFront := ⟨dollar, hdollar, .inl (by rw [hfront])⟩
    newDollar := fun hseen => by rw [h.newDollar hseen]; rfl
    newSign := by simp
    negative := rfl }

theorem Took.takeMarks (h : Took seen sign front) : ∃ sign' front',
    Took (takeMarks seen s).1 sign' front' ∧ front ++ s = front' ++ (takeMarks seen s).2 := by
  induction s generalizing seen sign front with
  | nil => exact ⟨sign, front, h, rfl⟩
  | cons c s ih =>
    -- a mark that is taken goes to the end of `front`
    have next {seen' : Marks} {sign' : Sign} (h' : Took seen' sign' (front ++ [c])) :
        ∃ sign' front', Took (Amount.takeMarks seen' s).1 sign' front' ∧
          front ++ c :: s = front' ++ (Amount.takeMarks seen' s).2 := by
      have hnext := ih h'
      rwa [List.append_assoc] at hnext
    unfold Amount.takeMarks
    split
    · rename_i hc
      obtain ⟨rfl, hnew⟩ := hc
      exact next (h.takeDollar (by simpa using hnew))
    split
    · rename_i hc
      obtain ⟨rfl, hnew⟩ := hc
      exact next (h.takeSign (by simpa using hnew) .minus)
    split
    · rename_i hc
      obtain ⟨rfl, hnew⟩ := hc
      have hnew : seen.sign = false := by simpa using hnew
      have hplus := h.takeSign hnew .plus
      have hnegative : seen.negative = (Sign.plus == .minus) := by rw [h.negative, h.newSign hnew]; rfl
      rw [← hnegative] at hplus
      exact next hplus
    · exact ⟨sign, front, h, rfl⟩

/-- What is taken off the front is a dollar sign and a sign, each once at most. -/
theorem front_of_takeMarks : ∃ sign front, Front sign front ∧ s = front ++ (takeMarks {} s).2 ∧
    (takeMarks {} s).1.negative = (sign == .minus) := by
  have hnone : Took {} .none [] := ⟨⟨[], .inl rfl, .inl rfl⟩, fun _ => rfl, fun _ => rfl, rfl⟩
  obtain ⟨sign, front, h, hs⟩ := hnone.takeMarks (s := s)
  exact ⟨sign, front, h.isFront, hs, h.negative⟩

end Marks

section Characters

variable {base n : Nat} {sign : Sign} {front s : List Char} {i : Int}

theorem byteLength_of_spells (h : Spells base s n) : byteLength s = s.length :=
  byteLength_eq_length fun c hc => utf8Size_of_isAlphanum (h.isAlphanum c hc)

/-- Neither a point nor a mark is a digit. -/
theorem ne_of_spells (h : Spells base s n) {c d : Char} (hc : c ∈ s) (hd : d.isAlphanum = false) :
    c ≠ d :=
  ne_of_apply_ne Char.isAlphanum (by rw [h.isAlphanum c hc, hd]; decide)

theorem head_of_spells (h : Spells base s n) (rest : List Char) :
    ∀ c, (s ++ '.' :: rest).head? = some c → c ≠ '$' ∧ c ≠ '-' ∧ c ≠ '+' := by
  intro c hc
  cases s with
  | nil =>
    cases hc
    decide
  | cons d s =>
    cases hc
    have hmem : c ∈ c :: s := List.mem_cons_self
    exact ⟨ne_of_spells h hmem rfl, ne_of_spells h hmem rfl, ne_of_spells h hmem rfl⟩

theorem Front.length_le (h : Front sign front) : front.length ≤ 2 := by
  obtain ⟨dollar, rfl | rfl, rfl | rfl⟩ := h <;> cases sign <;> decide

theorem Front.utf8Size (h : Front sign front) : ∀ c ∈ front, c.utf8Size = 1 := by
  have hall : front.all (·.utf8Size == 1) := by
    obtain ⟨dollar, rfl | rfl, rfl | rfl⟩ := h <;> cases sign <;> decide
  exact fun c hc => eq_of_beq (List.all_eq_true.mp hall c hc)

theorem Written.length (h : Written s i) : 3 ≤ s.length ∧ s.length ≤ 10 := by
  cases h with
  | mk hfront _ hfive _ htwo =>
    have hfront := hfront.length_le
    simp only [List.length_append, List.length_cons]
    omega

theorem Written.byteLength (h : Written s i) : byteLength s = s.length := by
  refine byteLength_eq_length fun c hc => ?_
  cases h with
  | mk hfront hdollars _ hcents _ =>
    simp only [List.mem_append, List.mem_cons] at hc
    rcases hc with (hc | hc) | rfl | hc
    · exact hfront.utf8Size c hc
    · exact utf8Size_of_isAlphanum (hdollars.isAlphanum c hc)
    · rfl
    · exact utf8Size_of_isAlphanum (hcents.isAlphanum c hc)

end Characters

section Reading

variable {raw : String} {c : Int64} {f : Fault}

/-- The lengths that are asked for are those in bytes. -/
theorem read_ok : read raw = .ok c ↔ (3 ≤ raw.utf8ByteSize ∧ raw.utf8ByteSize ≤ 10) ∧
    ∃ dollars cents whole part, cutAtMark '.' (takeMarks {} raw.toList).2 = some (dollars, cents) ∧
      byteLength dollars ≤ 5 ∧ byteLength cents = 2 ∧
      digitsFrom 10 0 dollars = some whole ∧ digitsFrom 10 0 cents = some part ∧
      c = Int64.ofInt (applySign (takeMarks {} raw.toList).1.negative (whole * 100 + part)) := by
  constructor
  · intro h
    unfold read at h
    dsimp only [Checked.fail] at h
    split at h
    · cases h
    split at h
    · cases h
    split at h
    · cases h
    split at h
    · cases h
    split at h
    · rename_i hsize _ dollars cents hcut hfive htwo _ _ whole part hwhole hpart
      exact ⟨by omega, dollars, cents, whole, part, hcut, by omega, by omega, hwhole, hpart,
        (Except.ok.inj h).symm⟩
    · cases h
  · rintro ⟨hsize, dollars, cents, whole, part, hcut, hfive, htwo, hwhole, hpart, rfl⟩
    unfold read
    rw [if_neg (by omega)]
    dsimp only
    rw [hcut]
    dsimp only
    rw [if_neg (by omega), if_neg (by omega), hwhole, hpart]

theorem eq_of_read_error (h : read raw = .error f) :
    ∃ why : String, f = .cause .format s!"invalid amount '{raw}': {why}" := by
  unfold read at h
  dsimp only [Checked.fail] at h
  repeat' split at h
  all_goals cases h
  all_goals exact ⟨_, rfl⟩

/-- Seven digits are far from leaving the range. -/
theorem toInt_ofInt_cents {whole part : Nat} (hwhole : whole < 10 ^ 5) (hpart : part < 10 ^ 2)
    (sign : Sign) : (Int64.ofInt (sign.apply (whole * 100 + part))).toInt =
      sign.apply (100 * whole + part : Nat) := by
  have hmin := Int64.toInt_minValue
  have hmax := Int64.toInt_maxValue
  rw [Int64.toInt_ofInt_of_le] <;> cases sign <;> simp only [Sign.apply] <;> omega

theorem written_of_ok (h : read raw = .ok c) : Written raw.toList c.toInt := by
  obtain ⟨-, dollars, cents, whole, part, hcut, hfive, htwo, hwhole, hpart, rfl⟩ := read_ok.mp h
  obtain ⟨sign, front, hfront, hraw, hnegative⟩ := front_of_takeMarks (s := raw.toList)
  have hdollars := (digitsFrom_zero (by decide)).mp hwhole
  have hcents := (digitsFrom_zero (by decide)).mp hpart
  rw [byteLength_of_spells hdollars] at hfive
  rw [byteLength_of_spells hcents] at htwo
  have hwhole := hdollars.lt_of_length_le (by decide) hfive
  have hpart := hcents.lt_of_length_le (by decide) (Nat.le_of_eq htwo)
  rw [append_of_cutAtMark hcut, ← List.append_assoc] at hraw
  rw [hnegative, applySign_eq, toInt_ofInt_cents hwhole hpart, hraw]
  exact .mk hfront hdollars hfive hcents htwo

theorem ok_of_written (h : Written raw.toList c.toInt) : read raw = .ok c := by
  have hbytes := h.byteLength
  have hlength := h.length
  rw [byteLength_toList] at hbytes
  -- the bounds on the size are those on the length from here on
  generalize hs : raw.toList = s at h hbytes hlength
  generalize hi : c.toInt = i at h
  cases h with
  | @mk sign front dollars cents whole part hfront hdollars hfive hcents htwo =>
    obtain ⟨marks, hmarks, hnegative⟩ := takeMarks_append hfront (head_of_spells hdollars cents)
    have hwhole := hdollars.lt_of_length_le (by decide) hfive
    have hpart := hcents.lt_of_length_le (by decide) (Nat.le_of_eq htwo)
    rw [List.append_assoc] at hs
    refine read_ok.mpr ⟨by omega, dollars, cents, whole, part, ?_⟩
    rw [hs, hmarks, byteLength_of_spells hdollars, byteLength_of_spells hcents]
    refine ⟨cutAtMark_append fun d hd => ne_of_spells hdollars hd rfl, hfive, htwo,
      (digitsFrom_zero (by decide)).mpr hdollars, (digitsFrom_zero (by decide)).mpr hcents, ?_⟩
    rw [hnegative, applySign_eq, ← Int64.toInt_inj, toInt_ofInt_cents hwhole hpart, hi]

end Reading

/-- An amount is written with the digits of its whole dollars and two of its cents. -/
theorem exists_written {i : Int} (hmin : -9999999 ≤ i) (hmax : i ≤ 9999999) : ∃ s, Written s i := by
  have hwhole : (Nat.toDigits 10 (i.natAbs / 100)).length ≤ 5 :=
    (Nat.length_toDigits_le_iff (by decide) (by decide)).mpr (by omega)
  have htens : i.natAbs % 100 / 10 < 10 := by omega
  have hones : i.natAbs % 100 % 10 < 10 := by omega
  have hcents := (Spells.nil.concat htens (hasValue_hexDigit (by omega))).concat hones
    (hasValue_hexDigit (by omega))
  have hfront : Front (.of i) (Sign.of i).text := ⟨[], .inl rfl, .inl rfl⟩
  have h := Written.mk hfront (spells_toDigits (i.natAbs / 100)) hwhole hcents rfl
  have hsum : 100 * (i.natAbs / 100) + ((0 * 10 + i.natAbs % 100 / 10) * 10 + i.natAbs % 100 % 10) =
      i.natAbs := by omega
  rw [hsum, Sign.apply_of] at h
  exact ⟨_, h⟩

/-- A text is read just if it is an amount, and as so many cents; every other one is a fault of format
that names it. An amount has three to ten characters, and there is one for every number of cents up to
`$99999.99` on either side of zero. -/
theorem written_of_read :
    (∀ raw, (∀ c, read raw = .ok c ↔ Written raw.toList c.toInt) ∧
      (∀ f, read raw = .error f →
        ∃ why : String, f = .cause .format s!"invalid amount '{raw}': {why}") ∧
      (∀ c, read raw = .ok c → 3 ≤ raw.length ∧ raw.length ≤ 10)) ∧
    ∀ i : Int, -9999999 ≤ i → i ≤ 9999999 → ∃ raw c, read raw = .ok c ∧ c.toInt = i := by
  refine ⟨fun raw => ⟨fun c => ⟨written_of_ok, ok_of_written⟩, fun f => eq_of_read_error,
    fun c h => ?_⟩, fun i hmin hmax => ?_⟩
  · have hlength := (written_of_ok h).length
    rwa [String.length_toList] at hlength
  · obtain ⟨s, hs⟩ := exists_written hmin hmax
    have hvalue : (Int64.ofInt i).toInt = i := by
      rw [Int64.toInt_ofInt_of_le] <;> omega
    refine ⟨String.ofList s, Int64.ofInt i, ok_of_written ?_, hvalue⟩
    rwa [String.toList_ofList, hvalue]

/-- The least amount has both marks and as many digits as there may be. -/
theorem written_of_read_least : read "-$99999.99" = .ok (-9999999) ∧
    (∃ raw c, read raw = .ok c ∧ c.toInt = -9999999) ∧
    ∃ why : String, read "$-1.5" = .error (.cause .format s!"invalid amount '$-1.5': {why}") := by
  obtain ⟨hread, hexists⟩ := written_of_read
  have hdollars : Spells 10 "99999".toList 99999 := (digitsFrom_zero (by decide)).mp rfl
  have hcents : Spells 10 "99".toList 99 := (digitsFrom_zero (by decide)).mp rfl
  have hfront : Front .minus ['-', '$'] := ⟨['$'], .inr rfl, .inr rfl⟩
  have hleast : Written "-$99999.99".toList (-9999999) := .mk hfront hdollars (by decide) hcents rfl
  refine ⟨((hread _).1 _).mpr hleast, hexists _ (by decide) (by decide), ?_⟩
  obtain ⟨f, hf⟩ : ∃ f, read "$-1.5" = .error f := ⟨_, rfl⟩
  obtain ⟨why, rfl⟩ := (hread _).2.1 f hf
  exact ⟨why, hf⟩

end Amount

end CommandScript
