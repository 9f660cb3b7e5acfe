import CommandScript.Proofs.Store.Retains

/-!
# Calls on a store

A variable is kept in a slot, and a name denotes a slot from inside an owner. An operation on a
variable looks at the variable of one slot and puts another one there: what it makes of the variable
is `Operation.become`, and `Operation.run_eq` says that this is all that the operation does to a
store. `Call.Turns` says of every call what it does to a slot.
-/

namespace CommandScript

namespace Store

/-! ### Slots -/

/-- Where a store keeps a variable. -/
inductive Slot where
  | global (name : String)
  | owned (owner name : String)
  deriving DecidableEq

/-- The variable in a slot. -/
def at? (s : Store) : Slot → Option Variable
  | .global name => s.globals.get? name
  | .owned owner name => s.locals.get? (owner, name)

/-- The slot that a name denotes from inside `owner`: that of the local, or else that of the global.
Reserved names denote none. -/
def slot? (s : Store) (name owner : String) : Option Slot :=
  if (Reserved.ofName? name).isSome then none
  else if (s.at? (.owned owner name)).isSome then some (.owned owner name)
  else if (s.at? (.global name)).isSome then some (.global name)
  else none

/-- The store with another variable in a slot. -/
def fill (s : Store) (slot : Slot) (v : Variable) : Store :=
  match slot with
  | .global name => { s with globals := s.globals.put name v }
  | .owned owner name => { s with locals := s.locals.put (owner, name) v }

variable {s t : Store} {name owner : String} {v w : Variable} {slot : Slot}

@[simp] theorem at?_fill (s : Store) (slot slot' : Slot) (v : Variable) :
    (s.fill slot v).at? slot' = if slot = slot' then some v else s.at? slot' := by
  cases slot <;> cases slot' <;> simp [fill, at?]

@[simp] theorem cells_fill (s : Store) (slot : Slot) (v : Variable) :
    (s.fill slot v).cells = s.cells := by
  cases slot <;> rfl

@[simp] theorem at?_withCells (s : Store) (cells : Cells) (slot : Slot) :
    ({ s with cells } : Store).at? slot = s.at? slot := by
  cases slot <;> rfl

theorem withCells_self {cells : Cells} (h : s.cells = cells) : ({ s with cells } : Store) = s := by
  subst h
  rfl

theorem find?_eq (s : Store) (name owner : String) :
    s.find? name owner = (s.at? (.owned owner name)).or (s.at? (.global name)) := by
  simp only [find?, at?]
  cases s.locals.get? (owner, name) <;> rfl

theorem unreserved_of_slot (h : s.slot? name owner = some slot) : Reserved.ofName? name = none := by
  unfold slot? at h
  split at h
  · cases h
  · rename_i hnot
    exact Option.not_isSome_iff_eq_none.mp hnot

/-- A name that denotes a slot stands for the variable there. -/
theorem find?_of_slot (h : s.slot? name owner = some slot) :
    s.find? name owner = s.at? slot ∧ (s.at? slot).isSome := by
  rw [find?_eq]
  unfold slot? at h
  split at h
  · cases h
  split at h
  · rename_i hlocal
    cases h
    rw [Option.or_of_isSome hlocal]
    exact ⟨rfl, hlocal⟩
  split at h
  · rename_i hlocal hglobal
    cases h
    rw [Option.not_isSome_iff_eq_none.mp hlocal]
    exact ⟨rfl, hglobal⟩
  · cases h

theorem find?_of_no_slot (h : s.slot? name owner = none) (hname : Reserved.ofName? name = none) :
    s.find? name owner = none := by
  rw [find?_eq]
  unfold slot? at h
  rw [hname] at h
  simp only [Option.isSome_none, Bool.false_eq_true, ↓reduceIte] at h
  split at h
  · cases h
  · rename_i hlocal
    split at h
    · cases h
    · rename_i hglobal
      rw [Option.not_isSome_iff_eq_none.mp hlocal, Option.not_isSome_iff_eq_none.mp hglobal]
      rfl

/-- Where two stores hold the same under a name, it denotes the same. -/
theorem slot?_congr (hlocal : s.at? (.owned owner name) = t.at? (.owned owner name))
    (hglobal : s.at? (.global name) = t.at? (.global name)) :
    s.slot? name owner = t.slot? name owner := by
  unfold slot?
  rw [hlocal, hglobal]

/-- What may be changed under a name is the variable in the slot that the name denotes. -/
theorem writable_ok :
    s.writable name owner = .ok v ↔ ∃ slot, s.slot? name owner = some slot ∧ s.at? slot = some v := by
  unfold writable get
  cases hname : Reserved.ofName? name with
  | some r =>
    refine iff_of_false nofun ?_
    rintro ⟨slot, hslot, -⟩
    cases hname.symm.trans (unreserved_of_slot hslot)
  | none =>
    cases hslot : s.slot? name owner with
    | none =>
      rw [find?_of_no_slot hslot hname]
      exact iff_of_false nofun nofun
    | some slot =>
      obtain ⟨hfind, hsome⟩ := find?_of_slot hslot
      obtain ⟨u, hu⟩ := Option.isSome_iff_exists.mp hsome
      rw [hfind, hu]
      simp [hu]

/-- A name that denotes no slot may not be changed. -/
theorem writable_of_no_slot (h : s.slot? name owner = none) : ∃ f, s.writable name owner = .error f ∧
    f.kind = if (Reserved.ofName? name).isSome then .runtime else .undefined := by
  unfold writable get
  cases hname : Reserved.ofName? name with
  | some r => exact ⟨_, rfl, rfl⟩
  | none =>
    rw [find?_of_no_slot h hname]
    exact ⟨_, rfl, rfl⟩

/-- Replacing a variable fills the slot that the name denotes. -/
theorem replace_of_slot (h : s.slot? name owner = some slot) :
    s.replace name owner v = s.fill slot v := by
  have hcontains : s.locals.contains (owner, name) = (s.at? (.owned owner name)).isSome := rfl
  unfold slot? at h
  unfold replace
  rw [hcontains]
  split at h
  · cases h
  split at h
  · rename_i hlocal
    cases h
    rw [if_pos hlocal]
    rfl
  · rename_i hlocal
    split at h
    · cases h
      rw [if_neg hlocal]
      rfl
    · cases h

/-! ### What an operation makes of a variable -/

end Store

namespace Variable

/-- The variable, if it is an array. -/
def asArray (name : String) (v : Variable) : Checked Variable :=
  if v.type.isArray then .ok v
  else .fail .typeMismatch s!"{name} is {v.type}, not an array"

/-- The array with other entries. -/
def changed (name : String) (stamp : Stamp) (change : Variable → Checked Value) (v : Variable) :
    Checked Variable := do
  let v ← v.asArray name
  return v.holding (← change v) stamp

/-- The array without the entries from `first` to `last`. -/
def removed (name : String) (first last : Nat) (stamp : Stamp) : Variable → Checked Variable :=
  changed name stamp fun v => do
    if last < first then
      Checked.fail .runtime s!"{name}[{first}-{last}] is reversed"
    Store.checkIndex name last v
    v.value.removeItems name first last

/-- The array without a number of entries, which stand from `first` to `last`. Without none it is as
it was. -/
def shortened (name : String) (count : Nat) (complaint : Variable → String)
    (first last : Variable → Nat) (stamp : Stamp) (v : Variable) : Checked Variable := do
  let v ← v.asArray name
  if v.size < count then
    Checked.fail .runtime (complaint v)
  if count = 0 then return v
  v.removed name (first v) (last v) stamp

end Variable

namespace Store

namespace Operation

def name : Operation → String
  | allocate _ _ name _ | write name .. | clear name .. | append name .. | extend name ..
  | insert name .. | modify name .. | remove name .. | truncate name .. | pop name ..
  | filter name .. | applyFilter name .. | resetFilter name .. => name

/-- Where the operation is called from. -/
def owner : Operation → String
  | allocate _ _ _ owner | write _ owner .. | clear _ owner .. | append _ owner ..
  | extend _ owner .. | insert _ owner .. | modify _ owner .. | remove _ owner ..
  | truncate _ owner .. | pop _ owner .. | filter _ owner .. | applyFilter _ owner ..
  | resetFilter _ owner => owner

def isAllocation : Operation → Bool
  | allocate .. => true
  | _ => false

/-- What the operation makes of the variable that it is called on. An allocation is called on none. -/
def become (v : Variable) : Operation → Checked Variable
  | allocate .. => .ok v
  | write name _ value stamp =>
    if value.type ≠ v.type then
      .fail .typeMismatch s!"cannot store {value.type} in {v.type} ${name}"
    else .ok (v.holding value stamp)
  | clear _ _ stamp => .ok (v.holding v.type.zero stamp)
  | append name _ item stamp => v.changed name stamp fun v => v.value.appendItem name item
  | extend name _ more stamp => v.changed name stamp fun v => v.value.extendItems name more
  | insert name _ index item stamp => v.changed name stamp fun v =>
    if v.size < index then
      .fail .runtime s!"{name}[{index}] is out of range for insert (size {v.size})"
    else v.value.insertItem name index item
  | modify name _ index item stamp => do
    let v ← v.asArray name
    checkIndex name index v
    let value ← v.value.replaceItem name index item
    return { v with value, written := some stamp }
  | remove name _ first last stamp => v.removed name first last stamp
  | truncate name _ count stamp =>
    v.shortened name count
      (fun v => s!"cannot truncate {count} entries from {name} (size {v.size})")
      (fun v => v.size - count) (fun v => v.size - 1) stamp
  | pop name _ count stamp =>
    v.shortened name count (fun v => s!"cannot pop {count} entries from {name} (size {v.size})")
      (fun _ => 0) (fun _ => count - 1) stamp
  | filter name _ f => do
    let v ← v.asArray name
    match f.verdicts? v.value with
    | none => Checked.fail .typeMismatch s!"filter does not apply to {v.type} ${name}"
    | some verdicts => return { v with mask := some (narrowed v.mask verdicts) }
  | applyFilter name _ stamp => do
    let v ← v.asArray name
    match v.mask with
    | none => return v
    | some _ => return v.holding v.filtered stamp
  | resetFilter name _ => do
    let v ← v.asArray name
    return { v with mask := none }

end Operation

variable {s t : Store} {name owner : String} {v w : Variable} {slot : Slot} {op : Operation}
  {scope : Scope}

/-- Looking up an array is looking up what may be changed and asking for an array. What is done with
it needs to be the same only for an array that was found. -/
theorem array_bind {α : Type} {k k' : Variable → Checked α}
    (h : ∀ v, s.writable name owner = .ok v → v.type.isArray = true → k v = k' v) :
    s.array name owner >>= k = s.writable name owner >>= fun v => v.asArray name >>= k' := by
  unfold array
  cases hv : s.writable name owner with
  | error f => rfl
  | ok v =>
    by_cases ha : v.type.isArray = true
    · simp only [bind, Except.bind, Variable.asArray, ha, ↓reduceIte]
      exact h v hv ha
    · simp only [bind, Except.bind, Variable.asArray, ha]
      rfl

theorem changeArray_eq (s : Store) (name owner : String) (stamp : Stamp)
    (change : Variable → Checked Value) :
    s.changeArray name owner stamp change = do
      let v ← s.writable name owner
      return s.replace name owner (← v.changed name stamp change) := by
  unfold changeArray Variable.changed
  rw [array_bind fun _ _ _ => rfl]
  simp only [bind_assoc, pure_bind]

/-- Removing entries from an array that has been looked at before. -/
theorem remove_of_writable (hv : s.writable name owner = .ok v) (first last : Nat)
    (stamp : Stamp) : s.remove name owner first last stamp = do
      return s.replace name owner (← v.removed name first last stamp) := by
  rw [remove_eq, changeArray_eq, hv]
  rfl

theorem shortened_eq (s : Store) (name owner : String) (count : Nat) (complaint : Variable → String)
    (first last : Variable → Nat) (stamp : Stamp) :
    (do
      let v ← s.array name owner
      if v.size < count then
        Checked.fail .runtime (complaint v)
      if count = 0 then return s
      s.remove name owner (first v) (last v) stamp) = do
    let v ← s.writable name owner
    return s.replace name owner (← v.shortened name count complaint first last stamp) := by
  simp only [Variable.shortened, bind_assoc]
  refine array_bind fun v hv _ => ?_
  by_cases hlt : v.size < count
  · simp only [hlt, ↓reduceIte]
    rfl
  simp only [hlt, ↓reduceIte]
  split
  · simp only [pure_bind, replace_self (find?_of_writable hv)]
  · exact remove_of_writable hv ..

/-- All that an operation but an allocation does to a store: it replaces the variable that its name
denotes by what it makes of it. -/
theorem Operation.run_eq (h : op.isAllocation = false) (s : Store) :
    op.run s = do
      let v ← s.writable op.name op.owner
      return s.replace op.name op.owner (← op.become v) := by
  cases op with
  | allocate => cases h
  | write name owner value stamp =>
    refine (write_eq ..).trans (bind_congr fun v => ?_)
    simp only [become]
    split <;> rfl
  | clear name owner stamp => exact clear_eq ..
  | append name owner item stamp => exact (append_eq ..).trans (changeArray_eq ..)
  | extend name owner more stamp => exact (extend_eq ..).trans (changeArray_eq ..)
  | insert name owner index item stamp => exact (insert_eq ..).trans (changeArray_eq ..)
  | remove name owner first last stamp => exact (remove_eq ..).trans (changeArray_eq ..)
  | modify name owner index item stamp =>
    refine (modify_eq ..).trans ((array_bind fun v _ _ => rfl).trans ?_)
    simp only [become, Operation.name, Operation.owner, bind_assoc, pure_bind]
  | truncate name owner count stamp => exact (truncate_eq ..).trans (shortened_eq ..)
  | pop name owner count stamp => exact (pop_eq ..).trans (shortened_eq ..)
  | filter name owner f =>
    rw [run_filter, filter_eq]
    simp only [become, Operation.name, Operation.owner, bind_assoc]
    refine (map_bind ..).trans (array_bind fun v _ _ => ?_)
    cases f.verdicts? v.value <;> rfl
  | applyFilter name owner stamp =>
    rw [run_applyFilter, applyFilter_eq]
    simp only [become, Operation.name, Operation.owner, bind_assoc]
    refine (map_bind ..).trans (array_bind fun v hv _ => ?_)
    cases v.mask with
    | none => simp only [map_pure, pure_bind, replace_self (find?_of_writable hv)]
    | some mask => rfl
  | resetFilter name owner =>
    refine (resetFilter_eq ..).trans ((array_bind fun v _ _ => rfl).trans ?_)
    simp only [become, Operation.name, Operation.owner, bind_assoc, pure_bind]

/-! ### Calls -/

/-- A call on a store: an operation, a read of a name, or a change of what the reserved variables
hold. -/
inductive Call where
  | operation (op : Operation)
  | read (now : Sources) (name owner : String)
  | cells (cells : Cells)

/-- The slot that an allocation is to fill. -/
def Slot.of (scope : Scope) (name owner : String) : Slot :=
  match scope with
  | .global => .global name
  | .owned => .owned owner name

/-- A variable of this name may be allocated. -/
def admits (s : Store) (scope : Scope) (name owner : String) : Bool :=
  isValidName name && (Reserved.ofName? name).isNone && (s.at? (.global name)).isNone &&
    (s.at? (.of scope name owner)).isNone

/-- An allocation fills its slot with a fresh variable where one may be allocated, and otherwise
fails. -/
theorem allocate_cases (s : Store) (scope : Scope) (type : ValueType) (name owner : String) :
    if s.admits scope name owner then
      s.allocate scope type name owner =
        .ok (s.fill (.of scope name owner) (.fresh type scope owner))
    else ∃ f, s.allocate scope type name owner = .error f := by
  rw [allocate_eq]
  unfold admits
  by_cases hname : isValidName name = true
  · cases hreserved : Reserved.ofName? name with
    | some r => simp [hname, Checked.fail, bind, Except.bind]
    | none =>
      cases hglobal : s.globals.get? name with
      | some v => simp [hname, at?, hglobal, Assoc.contains, Checked.fail, bind, Except.bind]
      | none =>
        cases scope with
        | global => simp [hname, at?, hglobal, Assoc.contains, Slot.of, fill, pure, Except.pure]
        | owned =>
          cases hlocal : s.locals.get? (owner, name) with
          | some v =>
            simp [hname, at?, hglobal, hlocal, Assoc.contains, Slot.of, Checked.fail, bind,
              Except.bind]
          | none =>
            simp [hname, at?, hglobal, hlocal, Assoc.contains, Slot.of, fill, pure, Except.pure]
  · simp [hname, Checked.fail, bind, Except.bind]

namespace Call

/-- The store that the call hands back. -/
def next (s : Store) : Call → Store
  | operation op => (op.perform.run s).2
  | read now name owner => ((StoreM.read now name owner).run s).2
  | cells new => { s with cells := new }

/-- A call that fails leaves the store as it is. -/
theorem next_perform (s : Store) (op : Operation) : (operation op).next s = match op.run s with
    | .ok t => t
    | .error _ => s :=
  op.run_perform s

theorem next_reading (s : Store) (now : Sources) (name owner : String) :
    (read now name owner).next s = match s.read now name owner with
      | .ok (_, t) => t
      | .error _ => s := by
  rw [next, Atomic.run_eq, Store.read]
  rcases outcome (StoreM.read now name owner) s with f | ⟨r, t⟩ <;> rfl

/-- The slot that the call is on: that which its name denotes, or that which an allocation is to
fill. -/
def slot? (s : Store) : Call → Option Slot
  | operation (.allocate scope _ name owner) => some (.of scope name owner)
  | operation op => s.slot? op.name op.owner
  | read _ name owner => s.slot? name owner
  | cells _ => none

/-- What the call puts into the slot that it is on, if it puts anything there. -/
def puts? (s : Store) (slot : Slot) : Call → Option Variable
  | operation (.allocate scope type name owner) =>
    if s.admits scope name owner then some (.fresh type scope owner) else none
  | operation op => (s.at? slot).bind fun v => (op.become v).toOption
  | read .. => (s.at? slot).bind fun v =>
    if v.written.isNone && !v.warned then some { v with warned := true } else none
  | cells _ => none

/-- What the reserved variables hold after the call. -/
def cellsAfter (s : Store) : Call → Cells
  | operation _ => s.cells
  | read now name _ =>
    match Reserved.ofName? name with
    | some r => (s.cells.read now r).2
    | none => s.cells
  | cells new => new

variable {call : Call}

/-- An operation but an allocation that is on a variable makes of it what it makes of it. -/
theorem run_of_slot (h : op.isAllocation = false) (hslot : s.slot? op.name op.owner = some slot)
    (hv : s.at? slot = some v) : op.run s = s.fill slot <$> op.become v := by
  rw [op.run_eq h, writable_ok.mpr ⟨slot, hslot, hv⟩]
  simp only [replace_of_slot hslot]
  exact bind_pure_comp (s.fill slot) (op.become v)

/-- An operation but an allocation fails where its name denotes no variable. -/
theorem run_of_no_slot (h : op.isAllocation = false) (hslot : s.slot? op.name op.owner = none) :
    ∃ f, op.run s = .error f ∧
      f.kind = if (Reserved.ofName? op.name).isSome then .runtime else .undefined := by
  obtain ⟨f, hf, hkind⟩ := writable_of_no_slot hslot
  refine ⟨f, ?_, hkind⟩
  rw [op.run_eq h, hf]
  rfl

theorem slot?_operation (h : op.isAllocation = false) :
    (operation op).slot? s = s.slot? op.name op.owner := by
  cases op
  case allocate => cases h
  all_goals rfl

theorem puts?_operation (h : op.isAllocation = false) :
    (operation op).puts? s slot = (s.at? slot).bind fun v => (op.become v).toOption := by
  cases op
  case allocate => cases h
  all_goals rfl

/-- The store with what the call puts into the slot that it is on. -/
def turned (s : Store) (call : Call) : Store :=
  match call.slot? s with
  | some slot => ((call.puts? s slot).map (s.fill slot)).getD s
  | none => s

theorem turned_of_no_slot (h : call.slot? s = none) : call.turned s = s := by
  simp only [turned, h]

theorem turned_of_slot (h : call.slot? s = some slot) :
    call.turned s = ((call.puts? s slot).map (s.fill slot)).getD s := by
  simp only [turned, h]

@[simp] theorem cells_turned (s : Store) (call : Call) : (call.turned s).cells = s.cells := by
  unfold turned
  split
  · cases call.puts? s _ <;> simp
  · rfl

theorem next_operation (s : Store) (op : Operation) :
    (operation op).next s = (operation op).turned s := by
  cases halloc : op.isAllocation with
  | true =>
    cases op
    case allocate scope type name owner =>
      have hcases := allocate_cases s scope type name owner
      have hrun : (Operation.allocate scope type name owner).run s =
        s.allocate scope type name owner := rfl
      rw [turned_of_slot rfl, next_perform, hrun]
      simp only [puts?]
      split at hcases
      · rename_i hadmits
        simp [hcases, hadmits]
      · rename_i hadmits
        obtain ⟨f, hf⟩ := hcases
        simp [hf, hadmits]
    all_goals cases halloc
  | false =>
    cases hslot : s.slot? op.name op.owner with
    | none =>
      rw [turned_of_no_slot ((slot?_operation halloc).trans hslot)]
      obtain ⟨f, hf, -⟩ := run_of_no_slot halloc hslot
      simp only [next_perform, hf]
    | some slot =>
      rw [turned_of_slot ((slot?_operation halloc).trans hslot), puts?_operation halloc]
      obtain ⟨v, hv⟩ := Option.isSome_iff_exists.mp (find?_of_slot hslot).2
      simp only [next_perform, run_of_slot halloc hslot hv, hv, Option.bind_some]
      cases op.become v <;> rfl

/-- Reading a name is on the variable that it denotes, or on what a reserved variable holds. -/
theorem next_read (s : Store) (now : Sources) (name owner : String) :
    (read now name owner).next s =
      { (read now name owner).turned s with cells := (read now name owner).cellsAfter s } := by
  have hon : (read now name owner).slot? s = s.slot? name owner := rfl
  rw [next_reading, read_eq]
  simp only [cellsAfter]
  cases hname : Reserved.ofName? name with
  | some r =>
    rw [turned_of_no_slot (by simp [slot?, Store.slot?, hname])]
  | none =>
    cases hslot : s.slot? name owner with
    | none =>
      rw [turned_of_no_slot (hon.trans hslot)]
      simp only [get, find?_of_no_slot hslot hname]
      rfl
    | some slot =>
      rw [turned_of_slot (hon.trans hslot)]
      obtain ⟨hfind, hsome⟩ := find?_of_slot hslot
      obtain ⟨v, hv⟩ := Option.isSome_iff_exists.mp hsome
      simp only [get, hfind, hv, puts?, Option.bind_some]
      rw [withCells_self (by cases v.written.isNone && !v.warned <;> simp)]
      cases hwarn : v.written.isNone && !v.warned <;>
        simp [replace_of_slot hslot, bind, Except.bind, pure, Except.pure, hwarn]

/-- A call may fill the slot that it is on, and change what the reserved variables hold: that is all
that it does to a store. -/
theorem next_eq (s : Store) (call : Call) :
    call.next s = { call.turned s with cells := call.cellsAfter s } := by
  cases call with
  | operation op =>
    rw [next_operation]
    exact (withCells_self (cells_turned ..)).symm
  | read now name owner => exact next_read ..
  | cells new => rfl

/-- A call changes the variable of the slot that it is on and no other one. -/
theorem at?_next (s : Store) (call : Call) (slot : Slot) :
    (call.next s).at? slot =
      if call.slot? s = some slot then (call.puts? s slot).or (s.at? slot) else s.at? slot := by
  rw [next_eq, at?_withCells]
  cases hslot : call.slot? s with
  | none => simp [turned_of_no_slot hslot]
  | some slot' =>
    rw [turned_of_slot hslot]
    by_cases heq : slot' = slot
    · subst heq
      cases call.puts? s slot' <;> simp
    · cases call.puts? s slot' <;> simp [heq]

theorem at?_next_of_ne (h : call.slot? s ≠ some slot) : (call.next s).at? slot = s.at? slot := by
  rw [at?_next, if_neg h]

/-- An allocation changes no variable that is there. -/
theorem at?_next_allocation (h : op.isAllocation = true) (hv : s.at? slot = some v) :
    ((operation op).next s).at? slot = some v := by
  cases op
  case allocate scope type name owner =>
    rw [at?_next, hv]
    split
    · rename_i hslot
      obtain rfl : Slot.of scope name owner = slot := Option.some.inj hslot
      simp [puts?, admits, hv]
    · rfl
  all_goals cases h

@[simp] theorem cells_next (s : Store) (call : Call) : (call.next s).cells = call.cellsAfter s := by
  rw [next_eq]

end Call

/-- The store after the calls, those that fail included. -/
def after (s : Store) (calls : List Call) : Store :=
  calls.foldl Call.next s

@[simp] theorem after_nil (s : Store) : s.after [] = s := rfl

@[simp] theorem after_cons (s : Store) (call : Call) (calls : List Call) :
    s.after (call :: calls) = (call.next s).after calls := rfl

theorem after_append (s : Store) (calls more : List Call) :
    s.after (calls ++ more) = (s.after calls).after more :=
  List.foldl_append ..

end Store

/-! ### The items of a value

The items of an array are its entries, each as a value of its own, and any other value is its only
item. What a variable holds can be looked at as a list of items whatever the type of the array is; and
the variable stays in its slot while it is changed there. -/

namespace Value

/-- The entries of an array, each as a value of its own; any other value is its only item. -/
def items : Value → List Value
  | strings items => items.map string
  | integers items => items.map integer
  | v => [v]

variable {v : Value}

theorem length_items (h : v.type.isArray = true) (x : Variable) :
    ({ x with value := v } : Variable).size = v.items.length := by
  cases v
  case strings | integers => exact (List.length_map ..).symm
  all_goals cases h

end Value

namespace Store

variable {s : Store} {name owner : String} {v w : Variable} {slot : Slot}

theorem put_put {κ α : Type} [DecidableEq κ] (k : κ) (a b : α) (m : Assoc κ α) :
    (m.put k a).put k b = m.put k b := by
  induction m with
  | nil => simp [Assoc.put]
  | cons e m ih =>
    obtain ⟨j, c⟩ := e
    by_cases hj : j = k <;> simp [Assoc.put, hj, ih]

@[simp] theorem fill_fill (s : Store) (slot : Slot) (v w : Variable) :
    (s.fill slot v).fill slot w = s.fill slot w := by
  cases slot <;> simp [fill, put_put]

/-- Filling a slot with what is there changes nothing. -/
theorem fill_self (h : s.at? slot = some v) : s.fill slot v = s := by
  cases slot with
  | global name => simp only [fill, Assoc.put_of_get? h]
  | owned owner name => simp only [fill, Assoc.put_of_get? h]

/-- A name denotes the same slot while another variable takes the place of one that is there. -/
theorem slot?_fill (h : (s.at? slot).isSome = true) (w : Variable) (name owner : String) :
    (s.fill slot w).slot? name owner = s.slot? name owner := by
  have hsome (other : Slot) : ((s.fill slot w).at? other).isSome = (s.at? other).isSome := by
    rw [at?_fill]
    split
    · rename_i heq
      rw [← heq, h]
      rfl
    · rfl
  unfold slot?
  rw [hsome, hsome]

/-- The array that a name denotes may be changed under the name. -/
theorem array_of_slot (hslot : s.slot? name owner = some slot) (hv : s.at? slot = some v)
    (harray : v.type.isArray = true) : s.array name owner = .ok v := by
  unfold array
  rw [writable_ok.mpr ⟨slot, hslot, hv⟩]
  simp only [bind, Except.bind, harray, ↓reduceIte]
  rfl

end Store

end CommandScript
