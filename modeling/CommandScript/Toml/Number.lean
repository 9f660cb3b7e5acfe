import CommandScript.Calendar
import CommandScript.Numeral
import CommandScript.Text.Blank

/-!
# TOML numbers, dates and times

Integers in four bases and floats. A float counts only as one: its value is not kept, but it must not
be too great. Digits may have single underscores between them, and decimal digits do not begin with a
zero.
-/

namespace CommandScript.Toml

open Text

/-- Digits with single underscores between them. -/
def plainDigits? (base : Nat) : List Char → Option (List Char)
  | [] => none
  | [c] => (fun _ => [c]) <$> Numeral.digit? base c
  | c :: '_' :: rest => do
    let _ ← Numeral.digit? base c
    return c :: (← plainDigits? base rest)
  | c :: rest => do
    let _ ← Numeral.digit? base c
    return c :: (← plainDigits? base rest)

/-- An integer behind the mark of its base. -/
def markedInteger? (base : Nat) (s : List Char) : Option Int64 := do
  let digits ← plainDigits? base s
  int64? (← Numeral.digits? base digits)

/-- Decimal digits that do not begin with a zero, unless they are just that. -/
def decimalDigits? (s : List Char) : Option (List Char) := do
  match ← plainDigits? 10 s with
  | '0' :: _ :: _ => none
  | digits => some digits

def integer? (s : List Char) : Option Int64 :=
  match s with
  | '0' :: 'x' :: rest => markedInteger? 16 rest
  | '0' :: 'o' :: rest => markedInteger? 8 rest
  | '0' :: 'b' :: rest => markedInteger? 2 rest
  | _ => do
    let (negative, digits) := Numeral.splitSign s
    int64? (Numeral.applySign negative (← Numeral.digits? 10 (← decimalDigits? digits)))

/-- The number that decimal digits, a fraction and an exponent denote, as a whole number of
`10 ^ exponent`. -/
structure Decimal where
  digits : Nat
  exponent : Int
  deriving DecidableEq, Repr

/-- The least number that rounds to infinity in the format of 64 bits: the greatest float and half of
the distance to the one before it. -/
def floatEnd : Nat := (1 <<< 1024) - (1 <<< 970)

/-- The number rounds to infinity. The exact comparison is left to numbers whose order of magnitude
does not decide. -/
def Decimal.isInfinite (d : Decimal) : Bool :=
  if d.digits = 0 then false
  else
    let magnitude := d.exponent + (Nat.toDigits 10 d.digits).length
    if magnitude < 300 then false
    else if 310 < magnitude then true
    else if 0 ≤ d.exponent then floatEnd ≤ d.digits * Nat.pow 10 d.exponent.toNat
    else floatEnd * Nat.pow 10 (-d.exponent).toNat ≤ d.digits

/-- An exponent with a sign at most; without one it is zero. -/
def exponent? : List Char → Option Int
  | [] => some 0
  | _ :: rest => do
    let (negative, digits) := Numeral.splitSign rest
    return Numeral.applySign negative (← Numeral.digits? 10 (← plainDigits? 10 digits))

/-- A fraction or an exponent, or both, behind decimal digits. -/
def decimal? (s : List Char) : Option Decimal := do
  let isExponentMark (c : Char) : Bool := c == 'e' || c == 'E'
  let mantissa := s.takeWhile fun c => !isExponentMark c
  let tail := s.dropWhile fun c => !isExponentMark c
  let exponent ← exponent? tail
  match cutAtMark '.' mantissa with
  | some (whole, part) =>
    let whole ← decimalDigits? whole
    let part ← plainDigits? 10 part
    return ⟨← Numeral.digits? 10 (whole ++ part), exponent - part.length⟩
  | none => if tail.isEmpty then none else return ⟨← Numeral.digits? 10 (← decimalDigits? mantissa), exponent⟩

/-- A float, or one of the special numbers. Only below zero may a decimal number be too great. -/
def isFloat (s : List Char) : Bool :=
  let (negative, digits) := Numeral.splitSign s
  if digits == "inf".toList || digits == "nan".toList then true
  else match decimal? digits with
    | some d => negative || !d.isInfinite
    | none => false

end CommandScript.Toml

/-!
## TOML dates and times

A date, a time of day, or a date and a time with a shift from universal time or without.
-/

namespace CommandScript.Toml

/-- A number of `width` decimal digits between two bounds, and what follows it. -/
def field? (width least most : Nat) (s : List Char) : Option (Nat × List Char) := do
  if s.length < width then none
  else
    let n ← Numeral.digits? 10 (s.take width)
    if least ≤ n ∧ n ≤ most then some (n, s.drop width) else none

/-- What follows a character that must stand here. -/
def after? (mark : Char) : List Char → Option (List Char)
  | c :: rest => if c = mark then some rest else none
  | [] => none

def monthLength (year month : Nat) : Nat :=
  if month = 2 then (if Day.isLeap year then 29 else 28)
  else if month = 4 ∨ month = 6 ∨ month = 9 ∨ month = 11 then 30
  else 31

/-- What follows a date. -/
def date? (s : List Char) : Option (List Char) := do
  let (year, s) ← field? 4 0 9999 s
  let (month, s) ← field? 2 1 12 (← after? '-' s)
  let (_, s) ← field? 2 1 (monthLength year month) (← after? '-' s)
  return s

/-- What follows the fraction of a second, if there is one. -/
def fraction? (s : List Char) : Option (List Char) :=
  match s with
  | '.' :: digit :: rest => if digit.isDigit then some (rest.dropWhile Char.isDigit) else none
  | ['.'] => none
  | _ => some s

/-- What follows a time of day. -/
def time? (s : List Char) : Option (List Char) := do
  let (_, s) ← field? 2 0 23 s
  let (_, s) ← field? 2 0 59 (← after? ':' s)
  let (_, s) ← field? 2 0 60 (← after? ':' s)
  fraction? s

/-- A shift from universal time and nothing else, or nothing at all. -/
def isShift (s : List Char) : Bool :=
  let hours (s : List Char) : Bool :=
    (do
      let (_, s) ← field? 2 0 23 s
      let (_, s) ← field? 2 0 59 (← after? ':' s)
      return s.isEmpty).getD false
  match s with
  | [] | ['Z'] | ['z'] => true
  | '+' :: rest | '-' :: rest => hours rest
  | _ => false

/-- A time of day with a shift or without. -/
def isShiftedTime (s : List Char) : Bool :=
  match time? s with
  | some rest => isShift rest
  | none => false

def isDate (s : List Char) : Bool :=
  date? s == some []

/-- A date, a time, or a date and a time with a `T` between them. -/
def isMoment (s : List Char) : Bool :=
  match date? s with
  | some [] => true
  | some (mark :: rest) => (mark == 'T' || mark == 't') && isShiftedTime rest
  | none => time? s == some []

end CommandScript.Toml
