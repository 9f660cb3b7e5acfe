import CommandScript.Flow.Loop
import CommandScript.Memory
import CommandScript.Operand

/-!
# Looking up references

A command sees variables from inside the subroutine that runs and loops of its own depth of calls.
Where a loop variable and a variable share a name, the loop variable is meant. Looking up may change
the memory: a first read of an unwritten variable is reported, and a random number is drawn.
-/

namespace CommandScript

/-- A loop that is running, and what its variable holds. -/
structure ActiveLoop where
  /-- How many calls are in progress around the loop. -/
  depth : Nat
  id : LoopId
  value : Int64
  deriving DecidableEq, Repr

/-- Where a command stands while it runs. -/
structure Viewpoint where
  owner : String
  depth : Nat
  /-- The loops that are running, innermost first. -/
  loops : List ActiveLoop := []

namespace Viewpoint

/-- The value of a loop variable. -/
def loopValue? (v : Viewpoint) (name : String) : Option Int64 :=
  (v.loops.find? fun l => l.depth == v.depth && l.id.name == name).map (·.value)

def read (v : Viewpoint) (name : String) : MemoryM Value :=
  MemoryM.read name v.owner

/-- The position that one end of an index gives. -/
def position (v : Viewpoint) : Bound → MemoryM Nat
  | .position n => return n.toNat
  | .named name => do
    let n ← match v.loopValue? name with
      | some n => pure n
      | none => (← v.read name).toInteger
    if n.toInt < 0 then
      throw (.cause .runtime s!"index {n} is negative")
    return n.toInt.toNat

/-- The first and the last position of an index. -/
def positions (v : Viewpoint) : Index → MemoryM (Nat × Nat)
  | .single b => do
    let n ← v.position b
    return (n, n)
  | .range first last => do
    let m ← v.position first
    let n ← v.position last
    return (m, n)

/-- A line number as a value. -/
def ofLine (n : Nat) : Int64 :=
  (int64? n).getD Int64.maxValue

/-- Who wrote a variable, or when. -/
def metadata (v : Viewpoint) (name : String) (t : Trait) : MemoryM Value := do
  let found ← (← get).store.get name v.owner
  match t, found.written with
  | .writer, some stamp => return .integer (ofLine stamp.line)
  | .writer, none => return .integer 0
  | _, some stamp => return .string stamp.moment.preciseText
  | _, none => return .string ""

/-- The entries of an array that its mask lets through. -/
def filtered (v : Viewpoint) (name : String) : MemoryM Value := do
  if (Reserved.ofName? name).isSome then v.read name
  else return (← (← get).store.get name v.owner).filtered

/-- The view that a trait gives, if there is one. -/
def viewed (t : Option Trait) (value : Value) : Checked Value :=
  match t with
  | none => .ok value
  | some t => t.apply value

/-- The value of a variable under index and trait. -/
def lookPlain (v : Viewpoint) (r : Reference) : MemoryM Value := do
  let value ← v.read r.name
  let value ← match r.index with
    | none => pure value
    | some index => do
      let (first, last) ← v.positions index
      match index with
      | .single _ => value.pick first none
      | .range _ _ => value.pick first (some last)
  viewed r.trait value

/-- The value that a reference stands for. -/
def look (v : Viewpoint) (r : Reference) : MemoryM Value :=
  match v.loopValue? r.name with
  | some n => viewed r.trait (.integer n)
  | none =>
    match r.trait with
    | none => v.lookPlain r
    | some t =>
      if t.isMetadata then v.metadata r.name t
      else if t.isDate then do (← get).clock.day.view t
      else if t = .filter then v.filtered r.name
      else v.lookPlain r

end Viewpoint

end CommandScript
