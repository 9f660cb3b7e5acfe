import CommandScript.Relation

/-!
# Filters

A filter selects entries of an array: texts that hold, begin with or end with a given text, or
numbers in a relation to a given number. Filters on the same array combine through a mask, which
says for each entry whether all of them selected it.
-/

namespace CommandScript

/-- Where a text must stand in an entry. -/
inductive Anchor where
  | anywhere
  | left
  | right
  deriving DecidableEq, Repr

/-- The text stands somewhere in the other one. -/
def isInfix (text : List Char) : List Char → Bool
  | [] => text.isEmpty
  | c :: rest => text.isPrefixOf (c :: rest) || isInfix text rest

inductive Filter where
  | text (text : String) (anchor : Anchor) (inverted : Bool)
  | number (r : Relation) (n : Int64)
  deriving DecidableEq

namespace Filter

/-- The text stands in the entry where the anchor wants it. -/
def hits (text : String) (anchor : Anchor) (entry : String) : Bool :=
  match anchor with
  | .anywhere => isInfix text.toList entry.toList
  | .left => text.toList.isPrefixOf entry.toList
  | .right => text.toList.isSuffixOf entry.toList

/-- What the filter says of each entry of an array, if it is made for such entries. -/
def verdicts? : Filter → Value → Option (List Bool)
  | text t anchor inverted, .strings items =>
    some (items.map fun entry => hits t anchor entry != inverted)
  | number r n, .integers items => some (items.map fun m => r.holds (compare m.toInt n.toInt))
  | _, _ => none

end Filter

/-- A mask after one more filter; a mask of another length does not count. -/
def narrowed (mask : Option (List Bool)) (verdicts : List Bool) : List Bool :=
  match mask with
  | some old =>
    if old.length = verdicts.length then old.zipWith (· && ·) verdicts else verdicts
  | none => verdicts

/-- The entries whose place in the mask is true. -/
def selected (mask : List Bool) (items : List α) : List α :=
  ((items.zip mask).filter (·.2)).map (·.1)

end CommandScript
