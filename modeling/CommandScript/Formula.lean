import CommandScript.Reference

/-!
# Formulas

A formula is whole-number arithmetic over literals, references and parentheses. It is kept as its
tokens, which the reader has checked, beside the text it was read from. Arithmetic is exact: a result
outside the signed 64-bit range is a fault and never wraps.
-/

namespace CommandScript

/-- A binary operator of formulas. -/
inductive Operator where
  | add
  | sub
  | mul
  | div
  | rem
  deriving DecidableEq, Repr

namespace Operator

def symbol : Operator → Char
  | add => '+'
  | sub => '-'
  | mul => '*'
  | div => '/'
  | rem => '%'

def all : List Operator := [add, sub, mul, div, rem]

def ofChar? (c : Char) : Option Operator :=
  all.find? fun op => op.symbol == c

/-- The operators that bind tighter. -/
def isMultiplicative : Operator → Bool
  | mul | div | rem => true
  | add | sub => false

/-- The operation on the integers; quotients are cut toward zero. -/
def exact : Operator → Int → Int → Int
  | add, a, b => a + b
  | sub, a, b => a - b
  | mul, a, b => a * b
  | div, a, b => a.tdiv b
  | rem, a, b => a.tmod b

/-- The quotient of the operands leaves the range, so neither it nor the remainder is taken. -/
def quotientOverflows (a b : Int64) : Bool :=
  a == Int64.minValue && b == -1

/-- The exact result, where it is defined and lies in the range. -/
def apply (op : Operator) (a b : Int64) : Checked Int64 :=
  if b = 0 ∧ (op = div ∨ op = rem) then
    .fail .divideByZero s!"{a} {op.symbol} 0"
  else
    let result :=
      if op = rem ∧ quotientOverflows a b then none else int64? (op.exact a.toInt b.toInt)
    match result with
    | some v => .ok v
    | none => .fail .runtime s!"overflow in {a} {op.symbol} {b}"

end Operator

/-- One token of a formula. -/
inductive Token where
  | value (n : Int64)
  | reference (r : Reference)
  | operator (op : Operator)
  | opening
  | closing
  deriving DecidableEq

/-- A formula: the text it was read from, without blanks around it, and its tokens. -/
structure Formula where
  text : String
  tokens : List Token
  deriving DecidableEq

namespace Formula

/-- The formula that is one literal. -/
def literal (n : Int64) : Formula where
  text := toString n
  tokens := [.value n]

/-- The references of the formula, from left to right. -/
def references (f : Formula) : List Reference :=
  f.tokens.filterMap fun
    | .reference r => some r
    | _ => none

/-- The reference that the whole formula is, if it is one. -/
def single? (f : Formula) : Option Reference :=
  match f.tokens with
  | [.reference r] => some r
  | _ => none

end Formula

end CommandScript
