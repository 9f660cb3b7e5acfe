import CommandScript.Value

/-!
# Relations

The six relations that conditions, loops and filters test, how two values compare, and where the
first relation sign of a text stands.
-/

namespace CommandScript

inductive Relation where
  | eq
  | ne
  | lt
  | le
  | gt
  | ge
  deriving DecidableEq, Repr

namespace Relation

def all : List Relation := [eq, ne, lt, le, gt, ge]

def symbol : Relation → String
  | eq => "=="
  | ne => "!="
  | lt => "<"
  | le => "<="
  | gt => ">"
  | ge => ">="

instance : ToString Relation := ⟨symbol⟩

def ofSymbol? (text : String) : Option Relation :=
  all.find? fun r => r.symbol == text

/-- The relation holds between two things that compare this way. -/
def holds (r : Relation) (order : Ordering) : Bool :=
  match r with
  | eq => order == .eq
  | ne => order != .eq
  | lt => order == .lt
  | le => order != .gt
  | gt => order == .gt
  | ge => order != .lt

/-- The relation between the same things in the other order. -/
def converse : Relation → Relation
  | eq => eq
  | ne => ne
  | lt => gt
  | le => ge
  | gt => lt
  | ge => le

/-- The relation that holds where this one does not. -/
def negation : Relation → Relation
  | eq => ne
  | ne => eq
  | lt => ge
  | le => gt
  | gt => le
  | ge => lt

/-- The relation sign that a text begins with, the longer one if there are two, and what follows. -/
def atFront? : List Char → Option (Relation × List Char)
  | '=' :: '=' :: rest => some (eq, rest)
  | '!' :: '=' :: rest => some (ne, rest)
  | '<' :: '=' :: rest => some (le, rest)
  | '>' :: '=' :: rest => some (ge, rest)
  | '<' :: rest => some (lt, rest)
  | '>' :: rest => some (gt, rest)
  | _ => none

/-- The first relation sign outside quotes and brackets, the text before it and the text after it.
A backslash inside quotes covers the character behind it. -/
def findFrom (quoted : Bool) (depth : Int) (before : List Char) :
    List Char → Option (List Char × Relation × List Char)
  | [] => none
  | '\\' :: [] => none
  | '\\' :: c :: rest =>
    if quoted then findFrom quoted depth (c :: '\\' :: before) rest
    else findFrom quoted depth ('\\' :: before) (c :: rest)
  | '"' :: rest => findFrom (!quoted) depth ('"' :: before) rest
  | '[' :: rest => findFrom quoted (if quoted then depth else depth + 1) ('[' :: before) rest
  | ']' :: rest => findFrom quoted (if quoted then depth else depth - 1) (']' :: before) rest
  | c :: rest =>
    match if quoted || depth != 0 then none else atFront? (c :: rest) with
    | some (r, after) => some (before.reverse, r, after)
    | none => findFrom quoted depth (c :: before) rest

def find? (text : List Char) : Option (List Char × Relation × List Char) :=
  findFrom false 0 [] text

/-- Whether two values stand in the relation. Texts compare character by character; where one side
is a number both count as numbers; truth values are only equal or not; arrays do not compare. -/
def test (r : Relation) (a b : Value) : Checked Bool :=
  if a.type.isArray || b.type.isArray then
    .fail .typeMismatch s!"cannot compare {a.type} {r} {b.type}"
  else if a.type = .boolean ∨ b.type = .boolean then do
    let x ← a.toBoolean
    let y ← b.toBoolean
    match r with
    | eq => return x == y
    | ne => return x != y
    | _ => Checked.fail .typeMismatch s!"'{r}' is not defined for Boolean"
  else match a, b with
    | .string s, .string t => .ok (r.holds (compare s t))
    | _, _ => do
      let x ← a.toInteger
      let y ← b.toInteger
      return r.holds (compare x.toInt y.toInt)

end Relation

end CommandScript
