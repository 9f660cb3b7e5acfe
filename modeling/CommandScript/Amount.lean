import CommandScript.Fault
import CommandScript.Numeral
import CommandScript.Text.Blank

/-!
# Dollar amounts

An amount is written with at most one `$` and one sign, in either order, then up to five digits of
dollars, a point and two digits of cents. Its value is a whole number of cents.
-/

namespace CommandScript.Amount

open Text

/-- What stands in front of the digits of an amount. -/
structure Marks where
  dollar : Bool := false
  sign : Bool := false
  negative : Bool := false

/-- Takes marks off the front, each kind once. -/
def takeMarks (seen : Marks) : List Char → Marks × List Char
  | [] => (seen, [])
  | c :: rest =>
    if c = '$' ∧ !seen.dollar then takeMarks { seen with dollar := true } rest
    else if c = '-' ∧ !seen.sign then takeMarks { seen with sign := true, negative := true } rest
    else if c = '+' ∧ !seen.sign then takeMarks { seen with sign := true } rest
    else (seen, c :: rest)

/-- The number of cents that a text denotes. -/
def read (raw : String) : Checked Int64 :=
  let bad (why : String) : Checked Int64 := .fail .format s!"invalid amount '{raw}': {why}"
  if raw.utf8ByteSize < 3 ∨ 10 < raw.utf8ByteSize then bad "length must be 3 to 10 characters"
  else
    let (marks, rest) := takeMarks {} raw.toList
    match cutAtMark '.' rest with
    | none => bad "missing '.'"
    | some (dollars, cents) =>
      if 5 < byteLength dollars then bad "too many dollar digits"
      else if byteLength cents ≠ 2 then bad "exactly two digits must follow '.'"
      else match Numeral.digitsFrom 10 0 dollars, Numeral.digitsFrom 10 0 cents with
        | some whole, some part =>
          .ok (Int64.ofInt (Numeral.applySign marks.negative (whole * 100 + part)))
        | _, _ => bad "unexpected character"

end CommandScript.Amount
