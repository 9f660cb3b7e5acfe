import CommandScript.Operand
import CommandScript.Relation

/-!
# Conditions

A condition is a relation between two operands, or one operand that is true or false, perhaps under
a `NOT`.
-/

namespace CommandScript

open Text

inductive Condition where
  | relation (left : Operand) (r : Relation) (right : Operand)
  | flag (o : Operand) (negated : Bool)
  deriving DecidableEq

namespace Condition

def toText : Condition → String
  | relation left r right => s!"{left} {r} {right}"
  | flag o true => s!"NOT {o}"
  | flag o false => o.toText

instance : ToString Condition := ⟨toText⟩

def operands : Condition → List Operand
  | relation left _ right => [left, right]
  | flag o _ => [o]

/-- The operand of a flag, and whether `NOT` or an exclamation mark stands before it. -/
def splitNot (s : List Char) : Bool × List Char :=
  match afterFolded? "NOT ".toList s with
  | some rest => (true, rest)
  | none =>
    match s with
    | '!' :: rest => (true, rest)
    | _ => (false, s)

/-- The condition that a text is. -/
def read (raw : String) : Checked Condition := do
  let s := trim raw.toList
  if s.isEmpty then
    Checked.fail .malformed "missing condition"
  match Relation.find? s with
  | some (before, r, after) =>
    let left ← Operand.read (String.ofList before)
    let right ← Operand.read (String.ofList after)
    return relation left r right
  | none =>
    let (negated, rest) := splitNot s
    return flag (← Operand.read (String.ofList rest)) negated

variable {m : Type → Type} [Monad m] [MonadExceptOf Fault m] [MonadLiftT Checked m]
  (look : Reference → m Value)

/-- The truth of the condition; the left side of a relation is evaluated first. -/
def evaluate : Condition → m Bool
  | relation left r right => do
    let a ← left.evaluate look
    let b ← right.evaluate look
    monadLift (r.test a b)
  | flag o negated => do
    let b ← monadLift (← o.evaluateAs look .boolean).toBoolean
    return b != negated

end Condition

end CommandScript
