import CommandScript.Assoc
import CommandScript.Name
import CommandScript.Reserved
import CommandScript.Store.Variable
import CommandScript.Value

/-!
# The store

The variables of a script. A name denotes, from inside a subroutine, the local of that subroutine or
else the global; reserved names denote neither. An operation works on the store in place: what it has
done before it fails would stay done.
-/

namespace CommandScript

/-- The owner of locals that are allocated outside subroutines. -/
def mainOwner : String := "*MAIN*"

structure Store where
  globals : Assoc String Variable := []
  /-- Locals by owner and name. -/
  locals : Assoc (String × String) Variable := []
  cells : Cells
  deriving DecidableEq

namespace Store

/-- A store without variables. -/
def empty (randomMax : UInt32) : Store where
  cells := Cells.ofModulus randomMax

/-- The variable that a name denotes from inside `owner`. -/
def find? (s : Store) (name owner : String) : Option Variable :=
  match s.locals.get? (owner, name) with
  | some v => some v
  | none => s.globals.get? name

def undefined (name owner : String) : Checked α :=
  .fail .undefined s!"${name} (in {owner})"

/-- The variable that a name denotes, reserved names denoting none. -/
def get (s : Store) (name owner : String) : Checked Variable :=
  match s.find? name owner with
  | some v => .ok v
  | none => undefined name owner

/-- The name can be read from inside `owner`. -/
def isVisible (s : Store) (name owner : String) : Bool :=
  (Reserved.ofName? name).isSome || (s.find? name owner).isSome

def typeOf (s : Store) (name owner : String) : Checked ValueType :=
  match Reserved.ofName? name with
  | some r => .ok r.type
  | none => Variable.type <$> s.get name owner

/-- Puts a variable in the place of the one that the name denotes from inside `owner`. -/
def replace (s : Store) (name owner : String) (v : Variable) : Store :=
  if s.locals.contains (owner, name) then { s with locals := s.locals.put (owner, name) v }
  else { s with globals := s.globals.put name v }

/-- The variable that a command may change under a name. -/
def writable (s : Store) (name owner : String) : Checked Variable :=
  match Reserved.ofName? name with
  | some _ => .fail .runtime s!"${name} is read-only"
  | none => s.get name owner

def size (s : Store) (name owner : String) : Checked Nat :=
  Variable.size <$> s.get name owner

/-- What a read gives: the value, and the warning that the read deserves. -/
structure Reading where
  value : Value
  warning : Option String := none

end Store

/-- An operation of the store. What it did before a fault stays done. -/
abbrev StoreM := ExceptT Fault (StateM Store)

namespace StoreM

variable {α : Type}

/-- Makes a variable. A global excludes every later variable of its name; locals of different owners
may share one. -/
def allocate (scope : Scope) (type : ValueType) (name owner : String) : StoreM Unit := do
  if !isValidName name then
    throw (.cause .malformed s!"invalid variable name '{name}'")
  if (Reserved.ofName? name).isSome then
    throw (.cause .duplicate s!"{name} is a reserved variable")
  let s ← get
  if s.globals.contains name then
    throw (.cause .duplicate s!"{name} is already allocated as a global")
  let v := Variable.fresh type scope owner
  match scope with
  | .global => set { s with globals := s.globals.put name v }
  | .owned =>
    if s.locals.contains (owner, name) then
      throw (.cause .duplicate s!"{name} is already allocated in {owner}")
    set { s with locals := s.locals.put (owner, name) v }

/-- Runs an operation on the variable that a command may change under a name. -/
def onVariable (name owner : String) (action : VariableM α) : StoreM α := fun s =>
  match s.writable name owner with
  | .error f => (.error f, s)
  | .ok v =>
    let (answer, v) := action.run v
    (answer, s.replace name owner v)

/-- Runs an operation on the array that a command may change under a name. -/
def onArray (name owner : String) (action : VariableM α) : StoreM α :=
  onVariable name owner do
    let v ← get
    if !v.type.isArray then
      throw (.cause .typeMismatch s!"{name} is {v.type}, not an array")
    action

/-- Reads a name. The first read of a variable that was never written deserves a warning. -/
def read (sources : Sources) (name owner : String) : StoreM Store.Reading :=
  match Reserved.ofName? name with
  | some r => do
    let s ← get
    let (value, cells) := s.cells.read sources r
    set { s with cells }
    return { value }
  | none => onVariable name owner do
    let v ← get
    if v.written.isNone && !v.warned then
      set { v with warned := true }
      let warning := s!"${name} read before it was written; using {v.type.zero}"
      return { value := v.value, warning }
    else return { value := v.value }

/-- Gives the variable a value of its own type. -/
def write (name owner : String) (value : Value) (stamp : Stamp) : StoreM Unit :=
  onVariable name owner do
    let v ← get
    if value.type ≠ v.type then
      throw (.cause .typeMismatch s!"cannot store {value.type} in {v.type} ${name}")
    VariableM.overwrite value stamp

/-- Gives the variable the value of one that was never written. -/
def clear (name owner : String) (stamp : Stamp) : StoreM Unit :=
  onVariable name owner do
    VariableM.overwrite (← get).type.zero stamp

def append (name owner : String) (item : Value) (stamp : Stamp) : StoreM Unit :=
  onArray name owner do
    let value ← (← get).value.appendItem name item
    VariableM.overwrite value stamp

/-- Adds every entry of another array. -/
def extend (name owner : String) (more : Value) (stamp : Stamp) : StoreM Unit :=
  onArray name owner do
    let value ← (← get).value.extendItems name more
    VariableM.overwrite value stamp

/-- Puts an item in front of the entry at `index`; at the size it goes to the end. -/
def insert (name owner : String) (index : Nat) (item : Value) (stamp : Stamp) : StoreM Unit :=
  onArray name owner do
    let v ← get
    if v.size < index then
      throw (.cause .runtime s!"{name}[{index}] is out of range for insert (size {v.size})")
    let value ← v.value.insertItem name index item
    VariableM.overwrite value stamp

def checkIndex (name : String) (index : Nat) (v : Variable) : VariableM Unit := do
  if v.size ≤ index then
    throw (.cause .runtime s!"{name}[{index}] is out of range (size {v.size})")

/-- Replaces one entry; filters stay at work. -/
protected def modify (name owner : String) (index : Nat) (item : Value) (stamp : Stamp) :
    StoreM Unit :=
  onArray name owner do
    let v ← get
    checkIndex name index v
    let value ← v.value.replaceItem name index item
    VariableM.put value
    VariableM.touch stamp

/-- Removes the entries from `first` to `last`. -/
def remove (name owner : String) (first last : Nat) (stamp : Stamp) : StoreM Unit :=
  onArray name owner do
    if last < first then
      throw (.cause .runtime s!"{name}[{first}-{last}] is reversed")
    let v ← get
    checkIndex name last v
    let value ← v.value.removeItems name first last
    VariableM.overwrite value stamp

/-- The size of an array that a command may change. -/
def arraySize (name owner : String) : StoreM Nat :=
  onArray name owner do
    return (← get).size

/-- Removes entries from the end; removing none is no write. -/
def truncate (name owner : String) (count : Nat) (stamp : Stamp) : StoreM Unit := do
  let size ← arraySize name owner
  if size < count then
    throw (.cause .runtime s!"cannot truncate {count} entries from {name} (size {size})")
  if count = 0 then return
  remove name owner (size - count) (size - 1) stamp

/-- Removes entries from the front; removing none is no write. -/
def pop (name owner : String) (count : Nat) (stamp : Stamp) : StoreM Unit := do
  let size ← arraySize name owner
  if size < count then
    throw (.cause .runtime s!"cannot pop {count} entries from {name} (size {size})")
  if count = 0 then return
  remove name owner 0 (count - 1) stamp

/-- Narrows the mask of an array by a filter; the number is that of the entries still selected. -/
def filter (name owner : String) (f : Filter) : StoreM Nat :=
  onArray name owner do
    let v ← get
    match f.verdicts? v.value with
    | none => throw (.cause .typeMismatch s!"filter does not apply to {v.type} ${name}")
    | some verdicts =>
      let mask := narrowed v.mask verdicts
      set { v with mask := some mask }
      return mask.count true

/-- Removes the entries that the mask leaves out; the number is theirs. -/
def applyFilter (name owner : String) (stamp : Stamp) : StoreM Nat :=
  onArray name owner do
    let v ← get
    if v.mask.isNone then return 0
    VariableM.overwrite v.filtered stamp
    return v.size - (← get).size

/-- Drops the mask and keeps every entry. -/
def resetFilter (name owner : String) : StoreM Unit :=
  onArray name owner VariableM.dropMask

/-- Sets the modulus of the random numbers. -/
def withModulus (n : Int64) : StoreM Unit := do
  let s ← get
  let cells ← s.cells.withModulus n
  set { s with cells }

end StoreM

/-! ### What the operations come to -/

namespace Store

/-- The store that an operation leaves where it succeeds. -/
def leaves (s : Store) (action : StoreM Unit) : Checked Store :=
  Prod.snd <$> outcome action s

def allocate (s : Store) (scope : Scope) (type : ValueType) (name owner : String) : Checked Store :=
  s.leaves (.allocate scope type name owner)

def read (s : Store) (sources : Sources) (name owner : String) : Checked (Reading × Store) :=
  outcome (StoreM.read sources name owner) s

def write (s : Store) (name owner : String) (value : Value) (stamp : Stamp) : Checked Store :=
  s.leaves (StoreM.write name owner value stamp)

def clear (s : Store) (name owner : String) (stamp : Stamp) : Checked Store :=
  s.leaves (StoreM.clear name owner stamp)

def append (s : Store) (name owner : String) (item : Value) (stamp : Stamp) : Checked Store :=
  s.leaves (StoreM.append name owner item stamp)

def extend (s : Store) (name owner : String) (more : Value) (stamp : Stamp) : Checked Store :=
  s.leaves (StoreM.extend name owner more stamp)

def insert (s : Store) (name owner : String) (index : Nat) (item : Value) (stamp : Stamp) :
    Checked Store :=
  s.leaves (StoreM.insert name owner index item stamp)

def modify (s : Store) (name owner : String) (index : Nat) (item : Value) (stamp : Stamp) :
    Checked Store :=
  s.leaves (StoreM.modify name owner index item stamp)

def remove (s : Store) (name owner : String) (first last : Nat) (stamp : Stamp) : Checked Store :=
  s.leaves (StoreM.remove name owner first last stamp)

def truncate (s : Store) (name owner : String) (count : Nat) (stamp : Stamp) : Checked Store :=
  s.leaves (StoreM.truncate name owner count stamp)

def pop (s : Store) (name owner : String) (count : Nat) (stamp : Stamp) : Checked Store :=
  s.leaves (StoreM.pop name owner count stamp)

def filter (s : Store) (name owner : String) (f : Filter) : Checked (Nat × Store) :=
  outcome (StoreM.filter name owner f) s

def applyFilter (s : Store) (name owner : String) (stamp : Stamp) : Checked (Nat × Store) :=
  outcome (StoreM.applyFilter name owner stamp) s

def resetFilter (s : Store) (name owner : String) : Checked Store :=
  s.leaves (StoreM.resetFilter name owner)

/-- The array that a command may change under a name. -/
def array (s : Store) (name owner : String) : Checked Variable := do
  let v ← s.writable name owner
  if v.type.isArray then return v
  else Checked.fail .typeMismatch s!"{name} is {v.type}, not an array"

/-- Changes the entries of an array. -/
def changeArray (s : Store) (name owner : String) (stamp : Stamp)
    (change : Variable → Checked Value) : Checked Store := do
  let v ← s.array name owner
  return s.replace name owner (v.holding (← change v) stamp)

def checkIndex (name : String) (index : Nat) (v : Variable) : Checked Unit :=
  if v.size ≤ index then .fail .runtime s!"{name}[{index}] is out of range (size {v.size})"
  else .ok ()

section Found

variable {s : Store} {name owner : String} {v : Variable}

theorem find?_of_get (h : s.get name owner = .ok v) : s.find? name owner = some v := by
  unfold get undefined Checked.fail at h
  split at h
  · rename_i u hfind
    cases h
    exact hfind
  · cases h

theorem find?_of_writable (h : s.writable name owner = .ok v) : s.find? name owner = some v := by
  unfold writable Checked.fail at h
  split at h
  · cases h
  · exact find?_of_get h

theorem find?_of_array (h : s.array name owner = .ok v) : s.find? name owner = some v := by
  unfold array at h
  cases hv : s.writable name owner with
  | error f =>
    rw [hv] at h
    cases h
  | ok u =>
    rw [hv, Checked.ok_bind] at h
    split at h
    · cases h
      exact find?_of_writable hv
    · cases h

/-- Putting a variable where it stands changes nothing. -/
theorem replace_self (h : s.find? name owner = some v) : s.replace name owner v = s := by
  unfold replace
  unfold find? at h
  cases hlocal : s.locals.get? (owner, name) with
  | some u =>
    rw [hlocal] at h
    cases h
    simp [Assoc.contains, hlocal, Assoc.put_of_get? hlocal]
  | none =>
    rw [hlocal] at h
    simp [Assoc.contains, hlocal, Assoc.put_of_get? h]

end Found

variable {α : Type} (s : Store) (name owner : String) (stamp : Stamp)

theorem outcome_onVariable (action : VariableM α) :
    outcome (StoreM.onVariable name owner action) s = do
      let v ← s.writable name owner
      let (a, w) ← outcome action v
      return (a, s.replace name owner w) := by
  simp only [outcome, StoreM.onVariable, ExceptT.run]
  cases s.writable name owner with
  | error f => rfl
  | ok v =>
    simp only [bind, Except.bind]
    rcases action v with ⟨_ | a, w⟩ <;> rfl

theorem outcome_onArray (action : VariableM α) :
    outcome (StoreM.onArray name owner action) s = do
      let v ← s.array name owner
      let (a, w) ← outcome action v
      return (a, s.replace name owner w) := by
  unfold StoreM.onArray array
  rw [outcome_onVariable, bind_assoc]
  refine bind_congr fun v => ?_
  rw [outcome_bind, outcome_get, Checked.ok_bind]
  cases v.type.isArray <;> rfl

theorem leaves_onArray (action : VariableM Unit) :
    s.leaves (StoreM.onArray name owner action) = do
      let v ← s.array name owner
      let (_, w) ← outcome action v
      return s.replace name owner w := by
  unfold leaves
  rw [outcome_onArray]
  simp only [map_bind, map_pure]

theorem leaves_onVariable (action : VariableM Unit) :
    s.leaves (StoreM.onVariable name owner action) = do
      let v ← s.writable name owner
      let (_, w) ← outcome action v
      return s.replace name owner w := by
  unfold leaves
  rw [outcome_onVariable]
  simp only [map_bind, map_pure]

/-! Each operation as what it makes of the variable that it finds. -/

theorem allocate_eq (scope : Scope) (type : ValueType) :
    s.allocate scope type name owner = do
      if !isValidName name then
        Checked.fail .malformed s!"invalid variable name '{name}'"
      if (Reserved.ofName? name).isSome then
        Checked.fail .duplicate s!"{name} is a reserved variable"
      if s.globals.contains name then
        Checked.fail .duplicate s!"{name} is already allocated as a global"
      let v := Variable.fresh type scope owner
      match scope with
      | .global => return { s with globals := s.globals.put name v }
      | .owned =>
        if s.locals.contains (owner, name) then
          Checked.fail .duplicate s!"{name} is already allocated in {owner}"
        return { s with locals := s.locals.put (owner, name) v } := by
  unfold allocate leaves StoreM.allocate
  cases isValidName name <;> cases (Reserved.ofName? name).isSome <;>
    cases hglobal : s.globals.contains name <;> cases scope <;>
    cases hlocal : s.locals.contains (owner, name) <;>
    simp [outcome_bind, outcome_get, hglobal, hlocal, Checked.ok_bind]
  all_goals rfl

theorem write_eq (value : Value) :
    s.write name owner value stamp = do
      let v ← s.writable name owner
      if value.type ≠ v.type then
        Checked.fail .typeMismatch s!"cannot store {value.type} in {v.type} ${name}"
      return s.replace name owner (v.holding value stamp) := by
  unfold write StoreM.write
  rw [leaves_onVariable]
  refine bind_congr fun v => ?_
  rw [outcome_bind, outcome_get, Checked.ok_bind]
  split <;> rfl

theorem clear_eq :
    s.clear name owner stamp = do
      let v ← s.writable name owner
      return s.replace name owner (v.holding v.type.zero stamp) :=
  s.leaves_onVariable name owner _

/-- Overwriting an array by a value that is worked out first is changing its entries. -/
theorem leaves_overwrite {change : Variable → Checked Value} {action : VariableM Unit}
    (h : ∀ v, outcome action v = do
      let value ← change v
      return ((), v.holding value stamp)) :
    s.leaves (StoreM.onArray name owner action) = s.changeArray name owner stamp change := by
  rw [leaves_onArray]
  refine bind_congr fun v => ?_
  rw [h, bind_assoc]
  rfl

theorem append_eq (item : Value) :
    s.append name owner item stamp =
      s.changeArray name owner stamp fun v => v.value.appendItem name item :=
  s.leaves_overwrite name owner stamp fun v => by
    simp only [outcome_bind, outcome_get, Checked.ok_bind, outcome_liftM, bind_assoc]
    rfl

theorem extend_eq (more : Value) :
    s.extend name owner more stamp =
      s.changeArray name owner stamp fun v => v.value.extendItems name more :=
  s.leaves_overwrite name owner stamp fun v => by
    simp only [outcome_bind, outcome_get, Checked.ok_bind, outcome_liftM, bind_assoc]
    rfl

theorem insert_eq (index : Nat) (item : Value) :
    s.insert name owner index item stamp = s.changeArray name owner stamp fun v =>
      if v.size < index then
        .fail .runtime s!"{name}[{index}] is out of range for insert (size {v.size})"
      else v.value.insertItem name index item :=
  s.leaves_overwrite name owner stamp fun v => by
    rw [outcome_bind, outcome_get, Checked.ok_bind]
    split
    · rfl
    · simp only [outcome_bind, outcome_liftM, bind_assoc]
      rfl

theorem outcome_checkIndex (index : Nat) (v w : Variable) :
    outcome (StoreM.checkIndex name index v) w = do
      checkIndex name index v
      return ((), w) := by
  unfold StoreM.checkIndex checkIndex
  split <;> rfl

theorem modify_eq (index : Nat) (item : Value) :
    s.modify name owner index item stamp = do
      let v ← s.array name owner
      checkIndex name index v
      let value ← v.value.replaceItem name index item
      return s.replace name owner { v with value, written := some stamp } := by
  unfold modify StoreM.modify
  rw [leaves_onArray]
  refine bind_congr fun v => ?_
  simp only [outcome_bind, outcome_get, Checked.ok_bind, outcome_checkIndex, outcome_liftM, bind_assoc,
    pure_bind]
  rfl

theorem remove_eq (first last : Nat) :
    s.remove name owner first last stamp = s.changeArray name owner stamp (fun v => do
      if last < first then
        Checked.fail .runtime s!"{name}[{first}-{last}] is reversed"
      checkIndex name last v
      v.value.removeItems name first last) :=
  s.leaves_overwrite name owner stamp fun v => by
    split
    · rfl
    · simp only [outcome_bind, outcome_get, Checked.ok_bind, outcome_checkIndex, outcome_liftM, bind_assoc,
        pure_bind]
      rfl

theorem outcome_arraySize :
    outcome (StoreM.arraySize name owner) s = do
      let v ← s.array name owner
      return (v.size, s) := by
  unfold StoreM.arraySize
  rw [outcome_onArray]
  cases hv : s.array name owner with
  | error f => rfl
  | ok v =>
    have hself := replace_self (find?_of_array hv)
    exact congrArg (fun t => Except.ok (v.size, t)) hself

/-- Shortening an array: its size is looked up first, and removing no entries is no write. -/
theorem leaves_shortening (count : Nat) (complaint : Nat → String) (first last : Nat → Nat) :
    s.leaves (do
      let size ← StoreM.arraySize name owner
      if size < count then
        throw (.cause .runtime (complaint size))
      if count = 0 then return
      StoreM.remove name owner (first size) (last size) stamp) = (do
    let v ← s.array name owner
    if v.size < count then
      Checked.fail .runtime (complaint v.size)
    if count = 0 then return s
    s.remove name owner (first v.size) (last v.size) stamp) := by
  unfold leaves
  rw [outcome_bind, outcome_arraySize, bind_assoc, map_bind]
  refine bind_congr fun v => ?_
  simp only [pure_bind]
  split
  · rfl
  · split <;> rfl

theorem truncate_eq (count : Nat) :
    s.truncate name owner count stamp = (do
      let v ← s.array name owner
      if v.size < count then
        Checked.fail .runtime s!"cannot truncate {count} entries from {name} (size {v.size})"
      if count = 0 then return s
      s.remove name owner (v.size - count) (v.size - 1) stamp) :=
  s.leaves_shortening name owner stamp count
    (fun size => s!"cannot truncate {count} entries from {name} (size {size})") (· - count) (· - 1)

theorem pop_eq (count : Nat) :
    s.pop name owner count stamp = (do
      let v ← s.array name owner
      if v.size < count then
        Checked.fail .runtime s!"cannot pop {count} entries from {name} (size {v.size})"
      if count = 0 then return s
      s.remove name owner 0 (count - 1) stamp) :=
  s.leaves_shortening name owner stamp count
    (fun size => s!"cannot pop {count} entries from {name} (size {size})") (fun _ => 0)
    fun _ => count - 1

theorem filter_eq (f : Filter) :
    s.filter name owner f = do
      let v ← s.array name owner
      match f.verdicts? v.value with
      | none => Checked.fail .typeMismatch s!"filter does not apply to {v.type} ${name}"
      | some verdicts =>
        let mask := narrowed v.mask verdicts
        return (mask.count true, s.replace name owner { v with mask := some mask }) := by
  unfold filter StoreM.filter
  rw [outcome_onArray]
  refine bind_congr fun v => ?_
  rw [outcome_bind, outcome_get, Checked.ok_bind]
  cases f.verdicts? v.value <;> rfl

theorem applyFilter_eq :
    s.applyFilter name owner stamp = do
      let v ← s.array name owner
      match v.mask with
      | none => return (0, s)
      | some _ =>
        let kept := v.holding v.filtered stamp
        return (v.size - kept.size, s.replace name owner kept) := by
  unfold applyFilter StoreM.applyFilter
  rw [outcome_onArray]
  cases hv : s.array name owner with
  | error f => rfl
  | ok v =>
    simp only [Checked.ok_bind, outcome_bind, outcome_get]
    cases v.mask with
    | none =>
      have hself := replace_self (find?_of_array hv)
      exact congrArg (fun t => Except.ok (0, t)) hself
    | some mask => rfl

theorem outcome_withModulus (n : Int64) :
    outcome (StoreM.withModulus n) s = do
      let cells ← s.cells.withModulus n
      return ((), { s with cells }) := by
  unfold StoreM.withModulus
  rw [outcome_bind, outcome_get, Checked.ok_bind, outcome_bind, outcome_liftM, bind_assoc]
  rfl

theorem resetFilter_eq :
    s.resetFilter name owner = do
      let v ← s.array name owner
      return s.replace name owner { v with mask := none } :=
  s.leaves_onArray name owner _

theorem read_eq (sources : Sources) :
    s.read sources name owner = match Reserved.ofName? name with
      | some r =>
        let (value, cells) := s.cells.read sources r
        .ok ({ value }, { s with cells })
      | none => do
        let v ← s.get name owner
        if v.written.isNone && !v.warned then
          let warning := s!"${name} read before it was written; using {v.type.zero}"
          return ({ value := v.value, warning }, s.replace name owner { v with warned := true })
        else return ({ value := v.value }, s) := by
  unfold read StoreM.read
  cases hname : Reserved.ofName? name with
  | some r => rfl
  | none =>
    have hget : s.writable name owner = s.get name owner := by
      unfold writable
      rw [hname]
    dsimp only
    rw [outcome_onVariable, hget]
    cases hv : s.get name owner with
    | error f => rfl
    | ok v =>
      simp only [Checked.ok_bind, outcome_bind, outcome_get]
      split
      · rfl
      · have hself := replace_self (find?_of_get hv)
        exact congrArg (fun t => Except.ok (({ value := v.value } : Reading), t)) hself

end Store

end CommandScript
