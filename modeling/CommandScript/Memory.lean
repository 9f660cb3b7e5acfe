import CommandScript.Log
import CommandScript.Store

/-!
# Memory

The store together with the log that its changes are reported to, the clock it is read under and the
source of its random numbers. Allocations, writes and the warnings of reads are reported; all other
operations are silent.
-/

namespace CommandScript

structure Memory where
  store : Store
  log : Log := {}
  clock : Moment := Moment.epoch
  /-- The number that a generator gives for a bound. -/
  draw : Generator → Nat → Nat := fun _ _ => 0

/-- An operation on the memory. What it did before a fault stays done. -/
abbrev MemoryM := ExceptT Fault (StateM Memory)

namespace Memory

def report (m : Memory) (c : Category) (message : String) : Memory :=
  { m with log := m.log.add c message }

def stamp (m : Memory) (line : Nat) : Stamp :=
  { line, moment := m.clock }

/-- What a read of the store takes from outside. -/
def sources (m : Memory) : Sources :=
  { clock := m.clock, draw := m.draw }

end Memory

namespace MemoryM

variable {α : Type}

def report (c : Category) (message : String) : MemoryM Unit :=
  modify fun m => m.report c message

def onStore (action : StoreM α) : MemoryM α := fun m =>
  let (answer, store) := action.run m.store
  (answer, { m with store })

def allocate (scope : Scope) (type : ValueType) (name owner : String) : MemoryM Unit := do
  onStore (StoreM.allocate scope type name owner)
  report .vars s!"allocated {scope} {type} {name} ({owner})"

def write (name owner : String) (value : Value) (line : Nat) : MemoryM Unit := do
  let stamp := (← get).stamp line
  onStore (StoreM.write name owner value stamp)
  report .vars s!"${name} = {value}"

def read (name owner : String) : MemoryM Value := do
  let sources := (← get).sources
  let reading ← onStore (StoreM.read sources name owner)
  if let some warning := reading.warning then
    report .warn warning
  return reading.value

end MemoryM

/-! ### What the operations come to -/

namespace Memory

def allocate (m : Memory) (scope : Scope) (type : ValueType) (name owner : String) :
    Checked Memory :=
  Prod.snd <$> outcome (MemoryM.allocate scope type name owner) m

def write (m : Memory) (name owner : String) (value : Value) (line : Nat) : Checked Memory :=
  Prod.snd <$> outcome (MemoryM.write name owner value line) m

def read (m : Memory) (name owner : String) : Checked (Value × Memory) :=
  outcome (MemoryM.read name owner) m

variable {α : Type} (m : Memory) (name owner : String)

theorem outcome_onStore (action : StoreM α) :
    outcome (MemoryM.onStore action) m = do
      let (a, store) ← outcome action m.store
      return (a, { m with store }) := by
  simp only [outcome, MemoryM.onStore, ExceptT.run]
  rcases action m.store with ⟨_ | a, s⟩ <;> rfl

theorem allocate_eq (scope : Scope) (type : ValueType) :
    m.allocate scope type name owner = do
      let store ← m.store.allocate scope type name owner
      return { m with store }.report .vars s!"allocated {scope} {type} {name} ({owner})" := by
  unfold allocate MemoryM.allocate Store.allocate Store.leaves
  rw [outcome_bind, outcome_onStore]
  cases outcome (StoreM.allocate scope type name owner) m.store <;> rfl

theorem write_eq (value : Value) (line : Nat) :
    m.write name owner value line = do
      let store ← m.store.write name owner value (m.stamp line)
      return { m with store }.report .vars s!"${name} = {value}" := by
  unfold write MemoryM.write Store.write Store.leaves
  simp only [outcome_bind, outcome_get, Checked.ok_bind, outcome_onStore]
  cases outcome (StoreM.write name owner value (m.stamp line)) m.store <;> rfl

theorem read_eq :
    m.read name owner = do
      let (reading, store) ← m.store.read m.sources name owner
      let m := { m with store }
      match reading.warning with
      | none => return (reading.value, m)
      | some warning => return (reading.value, m.report .warn warning) := by
  unfold read MemoryM.read Store.read
  simp only [outcome_bind, outcome_get, Checked.ok_bind, outcome_onStore, bind_assoc, pure_bind]
  refine bind_congr fun r => ?_
  cases r.1.warning <;> rfl

end Memory

end CommandScript
