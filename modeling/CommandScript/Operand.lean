import CommandScript.Formula.Evaluation
import CommandScript.Formula.Reader
import CommandScript.Text.Quoted

/-!
# Operands and arguments

An operand is a literal, a reference or a formula. An argument of a command is one operand or
several joined by `+` into a text. Both stay unevaluated until the command runs, when a resolver
gives the values of references.
-/

namespace CommandScript

open Text

inductive Operand where
  | literal (v : Value)
  | reference (r : Reference)
  | formula (f : Formula)
  deriving DecidableEq

inductive Argument where
  | operand (o : Operand)
  | joined (parts : List Operand)
  deriving DecidableEq

namespace Operand

def toText : Operand → String
  | literal (.string s) => s!"\"{s}\""
  | literal v => v.toText
  | reference r => r.toText
  | formula f => f.text

instance : ToString Operand := ⟨toText⟩

/-- The references whose values the operand needs. -/
def references : Operand → List Reference
  | literal _ => []
  | reference r => [r]
  | formula f => f.references

/-- Characters that an unquoted operand may have. -/
def isFormulaChar (c : Char) : Bool :=
  c.isAlphanum || "$_[].()+-*/% \t".toList.contains c

/-- Characters of which a formula has at least one. -/
def isFormulaMark (c : Char) : Bool :=
  "$()+-*/%".toList.contains c

/-- The text is one argument, which a quote begins. -/
def isOneQuoted (s : List Char) : Bool :=
  s.head? == some '"' && match cutOutside isBlank {} [] s with
    | some pieces => pieces.filter (fun p => !p.isEmpty) == [s]
    | none => false

/-- The operand that a text is. -/
def read (raw : String) : Checked Operand :=
  let s := trim raw.toList
  let text := String.ofList s
  if s.isEmpty then .fail .malformed "missing operand"
  else if s.head? == some '"' then
    if isOneQuoted s then (fun t => literal (.string t)) <$> readLiteral text
    else .fail .malformed s!"malformed string operand {text}"
  else if Reference.looksWhole s then reference <$> Reference.read text
  else if isWord "TRUE" text then .ok (literal (.boolean true))
  else if isWord "FALSE" text then .ok (literal (.boolean false))
  else match Numeral.integer? s with
    | some n => .ok (literal (.integer n))
    | none =>
      if s.all isFormulaChar && s.any isFormulaMark then formula <$> Formula.read text
      else .fail .malformed s!"'{text}' is not a value; quote string literals"

end Operand

namespace Argument

def toText : Argument → String
  | operand o => o.toText
  | joined parts => " + ".intercalate (parts.map Operand.toText)

instance : ToString Argument := ⟨toText⟩

/-- The argument that is a literal text. -/
def text (s : String) : Argument :=
  operand (.literal (.string s))

def references : Argument → List Reference
  | operand o => o.references
  | joined parts => parts.flatMap Operand.references

/-- Reads pieces joined by `+`; nothing at all is the empty text. -/
def read (raw : String) : Checked Argument := do
  let s := trim raw.toList
  if s.isEmpty then return text ""
  match ← (← splitJoined (String.ofList s)).mapM Operand.read with
  | [o] => return operand o
  | parts => return joined parts

end Argument

section Lookup

variable {m : Type → Type} [Monad m] [MonadExceptOf Fault m] [MonadLiftT Checked m]
  (look : Reference → m Value)

/-- The number that a reference stands for in a formula. -/
def lookInteger (r : Reference) : m Int64 := do
  monadLift (← look r).toInteger

def Operand.evaluate : Operand → m Value
  | .literal v => return v
  | .reference r => look r
  | .formula f => return .integer (← f.evaluate (lookInteger look))

/-- The value of an argument; joined parts give the text that their texts make up. -/
def Argument.evaluate : Argument → m Value
  | .operand o => o.evaluate look
  | .joined parts => do
    let values ← parts.mapM (·.evaluate look)
    return .string (String.join (values.map Value.toText))

def Argument.evaluateText (a : Argument) : m String := do
  return (← a.evaluate look).toText

/-- A text that is itself a reference counts as what that reference stands for. -/
def followed (v : Value) : m Value :=
  match v with
  | .string s =>
    if Reference.looksWhole s.toList then
      match Reference.read s with
      | .ok r => look r
      | .error _ => return v
    else return v
  | v => return v

/-- The value as one of type `t`, a reference held in a text being followed first unless a text is
wanted. -/
def coerced (v : Value) (t : ValueType) : m Value := do
  let v ← if t = .string ∨ t = .strings then pure v else followed look v
  monadLift (v.convert t)

def Operand.evaluateAs (o : Operand) (t : ValueType) : m Value := do
  coerced look (← o.evaluate look) t

def Argument.evaluateAs (a : Argument) (t : ValueType) : m Value := do
  coerced look (← a.evaluate look) t

end Lookup

end CommandScript
