import CommandScript.Calendar
import CommandScript.Store.Filter

/-!
# Variables

A variable keeps its type. Beside its value it knows the line and moment of its last write, whether
a read before the first write has been reported, and, while filters are at work on an array, the
mask of the entries that every filter let through.
-/

namespace CommandScript

inductive Scope where
  | global
  | owned
  deriving DecidableEq, Repr

namespace Scope

def name : Scope → String
  | global => "Global"
  | owned => "Local"

instance : ToString Scope := ⟨name⟩

def ofWord (word : String) : Checked Scope :=
  match Text.lookupWord [("GLOBAL", global), ("LOCAL", owned)] word with
  | some s => .ok s
  | none => .fail .malformed s!"expected GLOBAL or LOCAL, found '{word}'"

end Scope

/-- The line and the moment of a write. -/
structure Stamp where
  line : Nat
  moment : Moment
  deriving DecidableEq, Repr

structure Variable where
  type : ValueType
  scope : Scope
  /-- The subroutine that holds the allocation. -/
  owner : String
  value : Value
  written : Option Stamp := none
  warned : Bool := false
  mask : Option (List Bool) := none
  deriving DecidableEq

namespace Variable

/-- A variable that was never written. -/
def fresh (type : ValueType) (scope : Scope) (owner : String) : Variable :=
  { type, scope, owner, value := type.zero }

/-- The number of entries of an array, or of characters of a text. -/
def size (v : Variable) : Nat :=
  match v.value with
  | .strings items => items.length
  | .integers items => items.length
  | .string s => s.toList.length
  | _ => 0

/-- The entries that the mask lets through; all of them where there is no mask. -/
def filtered (v : Variable) : Value :=
  match v.mask, v.value with
  | some mask, .strings items => .strings (selected mask items)
  | some mask, .integers items => .integers (selected mask items)
  | _, value => value

/-- The variable with a new value, which ends the work of filters. -/
def holding (v : Variable) (value : Value) (stamp : Stamp) : Variable :=
  { v with value, written := some stamp, mask := none }

end Variable

/-- An operation on a variable. What it did before a fault stays done. -/
abbrev VariableM := ExceptT Fault (StateM Variable)

namespace VariableM

def put (value : Value) : VariableM Unit :=
  modify fun v => { v with value }

/-- Ends the work of filters. -/
def dropMask : VariableM Unit :=
  modify fun v => { v with mask := none }

/-- Notes a write. -/
def touch (stamp : Stamp) : VariableM Unit :=
  modify fun v => { v with written := some stamp }

/-- Gives the variable a new value, which ends the work of filters. -/
def overwrite (value : Value) (stamp : Stamp) : VariableM Unit := do
  put value
  dropMask
  touch stamp

end VariableM

end CommandScript
