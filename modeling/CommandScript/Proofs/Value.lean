import CommandScript.Proofs.Checked
import CommandScript.Proofs.Numeral.Grammar

/-!
# Values are restored from their texts

A conversion to a text and back reads the text as a token of the value's type (`convert_convert_string`).
Every number and truth value is restored that way, in an array as well, except for the least number,
whose text is no numeral that is read (`restored_of_toText`).
-/

namespace CommandScript.Value

open Checked Numeral

variable {n : Int64} {items : List Int64} {v : Value}

theorem convert_string (v : Value) : v.convert .string = .ok (string v.toText) := by
  cases v <;> rfl

/-- A text that is converted is read as a token. -/
theorem string_convert (s : String) (t : ValueType) : (string s).convert t = ofToken s t := by
  cases t with
  | integer | unsigned | boolean | string | strings => rfl
  | integers =>
    change integers <$> (do return [← readInteger s]) = (do return integers [← readInteger s])
    rw [map_bind]
    rfl

theorem convert_convert_string (v : Value) (t : ValueType) :
    (do (← v.convert .string).convert t) = ofToken v.toText t := by
  rw [convert_string]
  exact string_convert v.toText t

theorem ofToken_integer : ofToken (integer n).toText .integer = .ok (integer n) ↔ n ≠ Int64.minValue := by
  rw [← readInteger_toString]
  change integer <$> readInteger (toString n) = _ ↔ _
  simp [map_ok]

/-- An unsigned number is read as the signed number of its text, and fits. -/
theorem ofToken_unsigned (n : UInt32) : ofToken (unsigned n).toText .unsigned = .ok (unsigned n) := by
  have hlt : n.toNat < 2 ^ 32 := n.toNat_lt
  have hint : (Int64.ofNat n.toNat).toInt = n.toNat := Int64.toInt_ofNat_of_lt (by omega)
  have htext : (unsigned n).toText = toString (Int64.ofNat n.toNat) := by
    change toString n.toNat = toString (Int64.ofNat n.toNat).toInt
    rw [hint]
    rfl
  have hread : readInteger (toString (Int64.ofNat n.toNat)) = .ok (Int64.ofNat n.toNat) := by
    refine readInteger_toString.mpr fun h => ?_
    rw [h, Int64.toInt_minValue] at hint
    omega
  have hfits : Numeral.unsigned (Int64.ofNat n.toNat) = .ok n := by
    rw [Numeral.unsigned, hint, if_pos ⟨by omega, by exact_mod_cast hlt⟩]
    simp
  change unsigned <$> readUnsigned (unsigned n).toText = _
  rw [htext, readUnsigned, hread]
  change unsigned <$> Numeral.unsigned (Int64.ofNat n.toNat) = _
  rw [hfits]
  rfl

theorem ofToken_boolean (b : Bool) : ofToken (boolean b).toText .boolean = .ok (boolean b) := by
  cases b <;> rfl

theorem ofToken_toText (h : v.type = .integer ∨ v.type = .unsigned ∨ v.type = .boolean) :
    ofToken v.toText v.type = .ok v ↔ v ≠ integer Int64.minValue := by
  cases v with
  | integer n => exact ofToken_integer.trans (by simp)
  | unsigned n => exact iff_of_true (ofToken_unsigned n) nofun
  | boolean b => exact iff_of_true (ofToken_boolean b) nofun
  | string | strings | integers => simp [type] at h

theorem mapM_readInteger :
    (items.map fun n => toString n.toInt).mapM readInteger = .ok items ↔ Int64.minValue ∉ items := by
  induction items with
  | nil => exact iff_of_true rfl List.not_mem_nil
  | cons n rest ih =>
    have hfirst : readInteger (toString n.toInt) = .ok n ↔ n ≠ Int64.minValue := readInteger_toString
    rw [List.mem_cons, not_or, ← ih, ← ne_eq, ne_comm, ← hfirst, List.map_cons, List.mapM_cons]
    simp only [bind_ok, pure_ok, List.cons.injEq]
    constructor
    · rintro ⟨_, hn, _, hrest, rfl, rfl⟩
      exact ⟨hn, hrest⟩
    · rintro ⟨hn, hrest⟩
      exact ⟨n, hn, rest, hrest, rfl, rfl⟩

theorem convert_integers :
    (do (← (integers items).convert .strings).convert .integers) = .ok (integers items) ↔
      Int64.minValue ∉ items := by
  change integers <$> (items.map fun n => toString n.toInt).mapM readInteger = _ ↔ _
  rw [← mapM_readInteger]
  simp [map_ok]

/-- A number or a truth value is restored from its text by a conversion and as a token, an array of
numbers from the texts of its entries, and a number from its hexadecimal form; but the least number
from none of its texts. -/
theorem restored_of_toText (v : Value) (items : List Int64) (n : Int64) :
    (v.type = .integer ∨ v.type = .unsigned ∨ v.type = .boolean →
      ((do (← v.convert .string).convert v.type) = .ok v ↔ v ≠ integer Int64.minValue) ∧
      (ofToken v.toText v.type = .ok v ↔ v ≠ integer Int64.minValue)) ∧
    ((do (← (integers items).convert .strings).convert .integers) = .ok (integers items) ↔
      Int64.minValue ∉ items) ∧
    (readInteger (toHex n) = .ok n ↔ n ≠ Int64.minValue) := by
  refine ⟨fun h => ⟨?_, ofToken_toText h⟩, convert_integers, readInteger_toHex⟩
  rw [convert_convert_string]
  exact ofToken_toText h

/-- The greatest numbers, signed and unsigned, and the second least one. -/
theorem restored_of_toText_bounds :
    (do (← (integer Int64.maxValue).convert .string).convert .integer) = .ok (integer Int64.maxValue) ∧
    ofToken (unsigned 4294967295).toText .unsigned = .ok (unsigned 4294967295) ∧
    (do (← (integers [-9223372036854775807, 0]).convert .strings).convert .integers) =
      .ok (integers [-9223372036854775807, 0]) ∧
    readInteger (toHex (-9223372036854775807)) = .ok (-9223372036854775807) := by
  obtain ⟨hsigned, hitems, hhex⟩ := restored_of_toText (integer Int64.maxValue)
    [-9223372036854775807, 0] (-9223372036854775807)
  obtain ⟨hunsigned, -, -⟩ := restored_of_toText (unsigned 4294967295) [] 0
  exact ⟨(hsigned (.inl rfl)).1.mpr (by decide), (hunsigned (.inr (.inl rfl))).2.mpr nofun,
    hitems.mpr (by decide), hhex.mpr (by decide)⟩

/-- The digits of the least number leave the range before its minus is taken into account. -/
theorem least_not_restored :
    (do (← (integer Int64.minValue).convert .string).convert .integer) =
      .error (.cause .format "invalid integer '-9223372036854775808'") ∧
    ofToken (integer Int64.minValue).toText .integer =
      .error (.cause .format "invalid integer '-9223372036854775808'") ∧
    (do (← (integers [Int64.minValue]).convert .strings).convert .integers) =
      .error (.cause .format "invalid integer '-9223372036854775808'") ∧
    readInteger (toHex Int64.minValue) =
      .error (.cause .format "invalid integer '-0x8000000000000000'") := by
  have hhex : toHex Int64.minValue = "-0x8000000000000000" := by
    simp [toHex, hexText, hexDigit]
    rfl
  rw [hhex]
  exact ⟨rfl, rfl, rfl, rfl⟩

end CommandScript.Value
