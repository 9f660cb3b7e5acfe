import CommandScript.Formula

/-!
# Assignments

The argument of `SET`: a name, one of nine operators and the text to its right.
-/

namespace CommandScript

open Text

inductive AssignOp where
  | set
  | add
  | sub
  | mul
  | div
  | rem
  | and
  | or
  | xor
  deriving DecidableEq, Repr

namespace AssignOp

def symbol : AssignOp → String
  | set => "="
  | add => "+="
  | sub => "-="
  | mul => "*="
  | div => "/="
  | rem => "%="
  | and => "AND="
  | or => "OR="
  | xor => "XOR="

/-- The operators in the order in which they are looked for. -/
def all : List AssignOp := [add, sub, mul, div, rem, and, or, xor, set]

/-- The operator that a text begins with, in either case of its letters, and what follows. -/
def atFront? (s : List Char) : Option (AssignOp × List Char) :=
  all.findSome? fun op => (afterFolded? op.symbol.toList s).map fun rest => (op, rest)

/-- The number that the operator makes of the old value and the right-hand side. -/
def combine : AssignOp → Int64 → Int64 → Checked Int64
  | set, _, b => .ok b
  | add, a, b => Operator.add.apply a b
  | sub, a, b => Operator.sub.apply a b
  | mul, a, b => Operator.mul.apply a b
  | div, a, b => Operator.div.apply a b
  | rem, a, b => Operator.rem.apply a b
  | and, a, b => .ok (a &&& b)
  | or, a, b => .ok (a ||| b)
  | xor, a, b => .ok (a ^^^ b)

end AssignOp

structure Assignment where
  target : String
  op : AssignOp
  right : String
  deriving DecidableEq, Repr

namespace Assignment

/-- The assignment that a text is. -/
def read (raw : String) : Checked Assignment := do
  let s := trim raw.toList
  let text := String.ofList s
  if s.head? == some '$' then
    Checked.fail .malformed s!"'{text}': a $ reference cannot be the target of an assignment"
  let name := s.takeWhile isNameChar
  let target := String.ofList name
  if !isName name then
    Checked.fail .malformed s!"invalid assignment target in '{text}'"
  match AssignOp.atFront? (trimLeft (s.dropWhile isNameChar)) with
  | none => Checked.fail .malformed s!"expected an assignment operator after '{target}'"
  | some (op, rest) =>
    let right := trim rest
    if right.isEmpty then
      Checked.fail .malformed s!"missing value after '{op.symbol}'"
    else if right.head? == some '=' then
      Checked.fail .malformed s!"'{text}' is a comparison, not an assignment"
    else return { target, op, right := String.ofList right }

end Assignment

end CommandScript
