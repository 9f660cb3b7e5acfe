import CommandScript.Fault
import CommandScript.Text.Blank
import CommandScript.Text.Folded

/-!
# Numerals

Reading and writing of whole numbers. A numeral is one sign at most and then decimal digits, or `0x`
and hexadecimal digits; its value lies in the signed 64-bit range. The digits after `0x` may carry a
sign of their own, and the value of such a numeral is that of the signed digits under the outer
sign. Where that sign would negate the least number, the numeral is neither read nor refused.
-/

namespace CommandScript

/-- The number, if it fits the signed 64-bit range. -/
def int64? (n : Int) : Option Int64 :=
  if Int64.minValue.toInt ≤ n ∧ n ≤ Int64.maxValue.toInt then some (Int64.ofInt n) else none

namespace Numeral

open Text

/-- The value of a digit, if it is one in `base`, which is sixteen at most. -/
def digit? (base : Nat) (c : Char) : Option Nat :=
  let value :=
    if c.isDigit then some (c.toNat - '0'.toNat)
    else if 'a' ≤ c ∧ c ≤ 'f' then some (c.toNat - 'a'.toNat + 10)
    else if 'A' ≤ c ∧ c ≤ 'F' then some (c.toNat - 'A'.toNat + 10)
    else none
  value.filter (· < base)

/-- The value of a run of digits that follows digits of value `high`. -/
def digitsFrom (base high : Nat) : List Char → Option Nat
  | [] => some high
  | c :: rest => do digitsFrom base (high * base + (← digit? base c)) rest

/-- The value of one or more digits, most significant first. -/
def digits? (base : Nat) : List Char → Option Nat
  | [] => none
  | c :: rest => digitsFrom base 0 (c :: rest)

/-- Splits off one sign; the flag says that it is a minus. -/
def splitSign : List Char → Bool × List Char
  | '-' :: rest => (true, rest)
  | '+' :: rest => (false, rest)
  | s => (false, s)

def applySign (negative : Bool) (n : Int) : Int :=
  if negative then -n else n

/-- Digits under at most one sign, as a signed 64-bit number. -/
def signed? (base : Nat) (s : List Char) : Option Int64 := do
  let (negative, digits) := splitSign s
  int64? (applySign negative (← digits? base digits))

/-- The digits after a leading `0x`, if there are any. -/
def hexDigits? : List Char → Option (List Char)
  | '0' :: 'x' :: c :: rest => some (c :: rest)
  | '0' :: 'X' :: c :: rest => some (c :: rest)
  | _ => none

/-- The number that a numeral without its outer sign denotes. -/
def magnitude? (s : List Char) : Option Int64 :=
  match hexDigits? s with
  | some digits => signed? 16 digits
  | none => do int64? (← digits? 10 s)

def integer? (s : List Char) : Option Int64 := do
  let (negative, rest) := splitSign (trim s)
  int64? (applySign negative (← magnitude? rest).toInt)

/-- The number that a minus in front is to negate is the least one. -/
def negatesLeast (s : List Char) : Bool :=
  let (negative, rest) := splitSign (trim s)
  negative && magnitude? rest == some Int64.minValue

/-- The fault of a text that is no number. -/
def refuse (type raw : String) : Checked α :=
  if negatesLeast raw.toList then .fail .overflow s!"-({Int64.minValue})"
  else .fail .format s!"invalid {type} '{raw}'"

/-- The signed 64-bit number that a text denotes. -/
def readInteger (raw : String) : Checked Int64 :=
  match integer? raw.toList with
  | some n => .ok n
  | none => refuse "integer" raw

/-- The number, if it fits the unsigned 32-bit range. -/
def unsigned (n : Int64) : Checked UInt32 :=
  if 0 ≤ n.toInt ∧ n.toInt < UInt32.size then .ok (UInt32.ofNat n.toInt.toNat)
  else .fail .range s!"{n} is outside the Unsigned range"

def readUnsigned (raw : String) : Checked UInt32 := do
  unsigned (← readInteger raw)

/-- Reads `true` or `false` in any case, or a numeral, of which only zero is false. -/
def readBoolean (raw : String) : Checked Bool :=
  let s := trim raw.toList
  if sameFolded s "TRUE".toList then .ok true
  else if sameFolded s "FALSE".toList then .ok false
  else match integer? s with
    | some n => .ok (n != 0)
    | none => refuse "boolean" raw

def hexDigit (n : Nat) : Char :=
  if n < 10 then Char.ofNat ('0'.toNat + n) else Char.ofNat ('A'.toNat + n - 10)

/-- Hexadecimal digits in capitals, without leading zeros. -/
def hexText (n : Nat) : List Char :=
  if n < 16 then [hexDigit n] else hexText (n / 16) ++ [hexDigit (n % 16)]

/-- Hexadecimal form with a minus in front of the `0x` of a negative number. -/
def toHex (n : Int64) : String :=
  let digits := String.ofList (hexText n.toInt.natAbs)
  if n.toInt < 0 then s!"-0x{digits}" else s!"0x{digits}"

/-- A position or line number: one plus at most and decimal digits, for a number of 64 bits. -/
def natural? (s : List Char) : Option Nat :=
  let digits := match s with
    | '+' :: rest => rest
    | _ => s
  (digits? 10 digits).filter (· < UInt64.size)

end Numeral

end CommandScript
