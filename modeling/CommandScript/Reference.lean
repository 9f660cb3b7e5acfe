import CommandScript.Name
import CommandScript.Trait

/-!
# References

A reference reads a variable: `$NAME`, with an index `[i]` or an inclusive range `[i-j]` whose
bounds are positions or other variables, and with a trait behind a point. This module holds the
type, its text, what type a reference has, and how an index picks from a value.
-/

namespace CommandScript

/-- One end of an index. -/
inductive Bound where
  | position (n : UInt64)
  | named (name : String)
  deriving DecidableEq, Repr

inductive Index where
  | single (bound : Bound)
  | range (first last : Bound)
  deriving DecidableEq, Repr

structure Reference where
  name : String
  index : Option Index := none
  trait : Option Trait := none
  deriving DecidableEq, Repr

namespace Bound

def toText : Bound → String
  | position n => toString n.toNat
  | named v => s!"${v}"

end Bound

namespace Index

def bounds : Index → List Bound
  | single b => [b]
  | range first last => [first, last]

def toText : Index → String
  | single b => s!"[{b.toText}]"
  | range first last => s!"[{first.toText}-{last.toText}]"

/-- The type of what the index picks from a value of type `t`. -/
def pickedType (index : Index) (t : ValueType) : Option ValueType :=
  match t, index with
  | .string, _ => some .string
  | .strings, single _ => some .string
  | .integers, single _ => some .integer
  | .strings, range _ _ => some .strings
  | .integers, range _ _ => some .integers
  | _, _ => none

end Index

namespace Reference

/-- A reference with neither index nor trait. -/
def plain (name : String) : Reference := { name }

/-- The form in which a reference is written. -/
def toText (r : Reference) : String :=
  let index := match r.index with
    | some i => i.toText
    | none => ""
  let view := match r.trait with
    | some t => s!".{t}"
    | none => ""
  s!"${r.name}{index}{view}"

instance : ToString Reference := ⟨toText⟩

/-- The variables that the bounds of the index name. -/
def indexNames (r : Reference) : List String :=
  match r.index with
  | none => []
  | some index => index.bounds.filterMap fun
    | .named v => some v
    | .position _ => none

/-- The one variable that the date traits look at. -/
def dateName : String := "DATE"

/-- The type of the reference when the variable has type `declared`. -/
def resultType (r : Reference) (declared : ValueType) : Checked ValueType := do
  if let some t := r.trait then
    if t.isMetadata then
      return ← t.resultType declared
    if t.isDate && r.name != dateName then
      Checked.fail .traitType s!".{t} is only valid on ${dateName}, not ${r.name}"
  let picked ← match r.index with
    | none => pure declared
    | some index =>
      match index.pickedType declared with
      | some t => pure t
      | none => Checked.fail .typeMismatch s!"${r.name} of type {declared} cannot be indexed"
  match r.trait with
  | some t => t.resultType picked
  | none => return picked

end Reference

namespace Value

/-- The entries from position `first` to position `last`. -/
def slice (items : List α) (first last : Nat) : List α :=
  (items.drop first).take (last + 1 - first)

/-- Picks the entry at `first`, or the entries from `first` to `last`. The characters of a text
are its entries, and a text of one character is what a single position picks from it. -/
def pick (v : Value) (first : Nat) (last : Option Nat) : Checked Value := do
  let stop := last.getD first
  if stop < first then
    Checked.fail .runtime s!"index range [{first}-{stop}] is reversed"
  let check (size : Nat) : Checked Unit := do
    if size ≤ stop then
      let shown := match last with
        | some l => s!"[{first}-{l}]"
        | none => s!"[{first}]"
      Checked.fail .runtime s!"index {shown} out of range for size {size}"
  match v with
  | string s =>
    check s.toList.length
    return string (String.ofList (slice s.toList first stop))
  | strings items =>
    check items.length
    match last with
    | none => return string (items.getD first "")
    | some _ => return strings (slice items first stop)
  | integers items =>
    check items.length
    match last with
    | none => return integer (items.getD first 0)
    | some _ => return integers (slice items first stop)
  | v => Checked.fail .typeMismatch s!"{v.type} cannot be indexed"

end Value

end CommandScript
