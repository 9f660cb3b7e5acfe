import CommandScript.Command
import CommandScript.Store

/-!
# Types of arguments

What a line may read depends on where it stands: on the variables that are allocated, the subroutine
it belongs to and the loops that are open around it. A context holds this, and gives references,
formulas, arguments and conditions their types.
-/

namespace CommandScript

/-- What can be read from a line. -/
structure Context where
  store : Store
  owner : String
  /-- The open loops, innermost first. -/
  loops : List LoopId := []

namespace Context

/-- The name is the variable of an open loop. -/
def isLoop (c : Context) (name : String) : Bool :=
  c.loops.any fun id => id.name == name

def typeOf (c : Context) (name : String) : Checked ValueType :=
  c.store.typeOf name c.owner

/-- Every variable between the brackets may count as a number. -/
def checkIndexNames (c : Context) (r : Reference) : Checked Unit :=
  r.indexNames.forM fun name => do
    let t ← if c.isLoop name then pure .integer else c.typeOf name
    if !t.mayCount then
      Checked.fail .typeMismatch s!"index ${name} is {t}; indices must be numeric"

/-- The type of the variable of an open loop under the reference's trait. -/
def loopType (r : Reference) : Checked ValueType :=
  if r.index.isSome then
    .fail .typeMismatch s!"loop variable ${r.name} cannot be indexed"
  else match r.trait with
    | none => .ok .integer
    | some .hex => .ok .string
    | some t => .fail .traitType s!".{t} on loop variable ${r.name}"

def referenceType (c : Context) (r : Reference) : Checked ValueType := do
  c.checkIndexNames r
  if c.isLoop r.name then loopType r
  else r.resultType (← c.typeOf r.name)

/-- Every reference of a formula may count as a number. -/
def checkFormula (c : Context) (f : Formula) : Checked Unit :=
  f.references.forM fun r => do
    let t ← c.referenceType r
    if !t.mayCount then
      Checked.fail .typeMismatch s!"{r} is {t}; calculations need Integer or Unsigned operands"

def operandType (c : Context) : Operand → Checked ValueType
  | .literal v => .ok v.type
  | .reference r => c.referenceType r
  | .formula f => do
    c.checkFormula f
    return .integer

def argumentType (c : Context) : Argument → Checked ValueType
  | .operand o => c.operandType o
  | .joined parts => do
    parts.forM fun o => discard (c.operandType o)
    return .string

def readFormula (c : Context) (text : String) : Checked Formula := do
  let f ← Formula.read text
  c.checkFormula f
  return f

def readArgument (c : Context) (text : String) : Checked Argument := do
  let a ← Argument.read text
  discard (c.argumentType a)
  return a

/-- The sides of a relation are no arrays, and a flag is a truth value or a text. -/
def checkCondition (c : Context) : Condition → Checked Unit
  | .relation left _ right =>
    [left, right].forM fun o => do
      let t ← c.operandType o
      if t.isArray then
        Checked.fail .typeMismatch s!"cannot compare {t} {o}"
  | .flag o _ => do
    let t ← c.operandType o
    if t ≠ .boolean ∧ t ≠ .string then
      Checked.fail .typeMismatch s!"condition {o} is {t}, not Boolean"

def readCondition (c : Context) (text : String) : Checked Condition := do
  let condition ← Condition.read text
  c.checkCondition condition
  return condition

/-- A path: a text expression if a quote or a reference begins it, or else the text as it stands. -/
def readPath (c : Context) (text : String) : Checked Argument :=
  match text.toList.head? with
  | none => .fail .malformed "missing path"
  | some '"' | some '$' => c.readArgument text
  | some _ => .ok (Argument.text text)

end Context

end CommandScript
