import CommandScript.Flow.Chain
import CommandScript.Formula
import CommandScript.Relation

/-!
# Loops

A loop is known by its variable and the index of its `FOR`, so loops that are not nested may share a
variable.
-/

namespace CommandScript

structure LoopId where
  name : String
  index : Nat
  deriving DecidableEq, Repr

namespace LoopId

def toText (id : LoopId) : String := s!"{id.name}@{id.index}"

instance : ToString LoopId := ⟨toText⟩

end LoopId

structure Loop where
  id : LoopId
  start : Formula
  stop : Formula
  step : Formula
  /-- The loop goes on while its variable stands in this relation to the value of `stop`. -/
  test : Relation
  endIndex : Option Nat := none
  /-- How many chains were open at the `FOR`. -/
  chainLevel : Nat
  deriving DecidableEq

namespace Loop

/-- The first command of the body. -/
def bodyIndex (l : Loop) : Nat := l.id.index + 1

/-- The command behind the `ENDFOR`. -/
def exitIndex (l : Loop) : Checked Nat :=
  match l.endIndex with
  | some e => .ok (e + 1)
  | none => missingEntry s!"ENDFOR of loop {l.id}"

end Loop

abbrev LoopTable := Assoc LoopId Loop

namespace LoopTable

def add (t : LoopTable) (l : Loop) : LoopTable :=
  Assoc.put l.id l t

/-- Ends a loop at an `ENDFOR`. -/
def finish (t : LoopTable) (id : LoopId) (index : Nat) : Checked LoopTable :=
  match Assoc.get? id t with
  | none => .fail .compile s!"ENDFOR for unknown loop {id}"
  | some l => .ok (Assoc.put id { l with endIndex := some index } t)

def loop (t : LoopTable) (id : LoopId) : Checked Loop :=
  match Assoc.get? id t with
  | some l => .ok l
  | none => missingEntry s!"loop {id}"

end LoopTable

end CommandScript
