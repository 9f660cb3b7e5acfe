import CommandScript.Proofs.Store.Calls
import CommandScript.Proofs.Store.History
import CommandScript.Proofs.Value

/-!
# Arrays as lists

Adding, replacing and removing entries of an array is doing so with the list of its items:
`Operation.onList?` says what becomes of the list and when nothing does, and `items_become` that the
array follows it. The positions and counts of an operation are any numbers. `Operation.inBounds` is the
operation with every position held against the size of the array before it is used and every difference
against falling below zero; nothing is ever found wanting there (`inBounds_eq`).
-/

namespace CommandScript

/-- The type of the entries of an array. -/
def ValueType.entry : ValueType → ValueType
  | strings => string
  | integers => integer
  | t => t

/-- The values, each converted. -/
def Value.convertAll (t : ValueType) (l : List Value) : Checked (List Value) :=
  l.mapM fun v => v.convert t

/-- What a checked operation gives depends on what succeeded before it. -/
theorem Checked.toOption_bind {α β : Type} (x : Checked α) (f : α → Checked β) :
    (x >>= f).toOption = x.toOption.bind fun a => (f a).toOption := by
  cases x <;> rfl

theorem Checked.toOption_map {α β : Type} (x : Checked α) (f : α → β) :
    (f <$> x).toOption = x.toOption.map f := by
  cases x <;> rfl

namespace Store

namespace Operation

/-- The operation adds, replaces or removes entries of an array. -/
def isListing : Operation → Bool
  | append .. | extend .. | insert .. | modify .. | remove .. | truncate .. | pop .. => true
  | allocate .. | write .. | clear .. | filter .. | applyFilter .. | resetFilter .. => false

/-- What becomes of the items of an array of type `t`, unless the operation fails. An item that is
given must convert to the type of the entries. -/
def onList? (t : ValueType) (l : List Value) : Operation → Option (List Value)
  | append _ _ item _ => (item.convert t.entry).toOption.map fun x => l ++ [x]
  | extend _ _ more _ => (Value.convertAll t.entry more.items).toOption.map fun xs => l ++ xs
  | insert _ _ i item _ =>
    if i ≤ l.length then
      (item.convert t.entry).toOption.map fun x => l.take i ++ [x] ++ l.drop i
    else none
  | modify _ _ i item _ =>
    if i < l.length then (item.convert t.entry).toOption.map fun x => l.set i x else none
  | remove _ _ a b _ => if a ≤ b ∧ b < l.length then some (l.take a ++ l.drop (b + 1)) else none
  | truncate _ _ c _ => if c ≤ l.length then some (l.take (l.length - c)) else none
  | pop _ _ c _ => if c ≤ l.length then some (l.drop c) else none
  | _ => none

end Operation

/-- The items of an array of type `t` after operations on it; one that fails leaves them. -/
def itemsAfter (t : ValueType) (l : List Value) (ops : List Operation) : List Value :=
  ops.foldl (fun l op => (op.onList? t l).getD l) l

end Store

/-! ### Items -/

namespace Value

theorem convert_integer (v : Value) : v.convert .integer = integer <$> v.toInteger := by
  cases v <;> rfl

variable {array : Value} {name : String}

/-- A change that does the same to entries of any type does it to the items. -/
theorem items_changeWith (harray : array.type.isArray = true) (item : Value)
    (change : {α : Type} → List α → α → List α)
    (hchange : ∀ {α β : Type} (f : α → β) (l : List α) (x : α),
      (change l x).map f = change (l.map f) (f x)) :
    (array.changeWith name item change).toOption.map items =
      (item.convert array.type.entry).toOption.map fun x => change array.items x := by
  cases array
  case strings l =>
    change _ = (item.convert .string).toOption.map _
    rw [convert_string]
    exact congrArg some (hchange string l item.toText)
  case integers l =>
    change _ = (item.convert .integer).toOption.map _
    rw [convert_integer, Checked.toOption_map, Option.map_map]
    unfold changeWith
    rw [Checked.toOption_bind]
    cases item.toInteger with
    | error f => rfl
    | ok n => exact congrArg some (hchange integer l n)
  all_goals cases harray

theorem items_removeItems (harray : array.type.isArray = true) (first last : Nat) :
    (array.removeItems name first last).toOption.map items =
      some (array.items.take first ++ array.items.drop (last + 1)) := by
  cases array
  case strings l =>
    exact congrArg some (by simp [items, List.map_take, List.map_drop])
  case integers l =>
    exact congrArg some (by simp [items, List.map_take, List.map_drop])
  all_goals cases harray

theorem convertAll_string (more : Value) :
    convertAll .string more.items = .ok (more.toStrings.map string) := by
  have hall (l : List Value) : convertAll .string l = .ok (l.map fun v => string v.toText) := by
    induction l with
    | nil => rfl
    | cons v l ih =>
      unfold convertAll at ih ⊢
      rw [List.mapM_cons, convert_string, ih]
      rfl
  rw [hall]
  cases more
  case strings | integers => simp [items, toStrings, toText]
  all_goals rfl

theorem convertAll_integer (more : Value) :
    convertAll .integer more.items = List.map integer <$> more.toIntegers := by
  have hall (l : List Value) : convertAll .integer l = List.map integer <$> l.mapM toInteger := by
    induction l with
    | nil => rfl
    | cons v l ih =>
      unfold convertAll at ih ⊢
      rw [List.mapM_cons, convert_integer, ih, List.mapM_cons]
      cases v.toInteger <;> cases l.mapM toInteger <;> rfl
  have hitems : more.items.mapM toInteger = more.toIntegers := by
    cases more
    case strings l => exact List.mapM_map
    case integers l =>
      change (l.map integer).mapM toInteger = pure l
      induction l with
      | nil => rfl
      | cons n l ih =>
        rw [List.map_cons, List.mapM_cons, ih]
        rfl
    all_goals exact List.mapM_cons
  rw [hall, hitems]

theorem items_extendItems (harray : array.type.isArray = true) (more : Value) :
    (array.extendItems name more).toOption.map items =
      (convertAll array.type.entry more.items).toOption.map fun xs => array.items ++ xs := by
  cases array
  case strings l =>
    change _ = (convertAll .string more.items).toOption.map _
    rw [convertAll_string]
    exact congrArg some (List.map_append ..)
  case integers l =>
    change _ = (convertAll .integer more.items).toOption.map _
    rw [convertAll_integer, Checked.toOption_map, Option.map_map]
    unfold extendItems
    rw [Checked.toOption_bind]
    cases more.toIntegers with
    | error f => rfl
    | ok ns => exact congrArg some (List.map_append ..)
  all_goals cases harray

end Value

namespace Store

variable {s : Store} {v w : Variable} {op : Operation} {slot : Slot} {name : String} {stamp : Stamp}

theorem items_changed (harray : v.type.isArray = true) (change : Variable → Checked Value) :
    ((v.changed name stamp change).toOption.map fun w => w.value.items) =
      (change v).toOption.map Value.items := by
  unfold Variable.changed Variable.asArray
  rw [if_pos harray]
  change ((change v >>= fun value => pure (v.holding value stamp)).toOption.map _) = _
  rw [Checked.toOption_bind]
  cases change v <;> rfl

section Removal

variable (hs : v.Sound) (harray : v.type.isArray = true)

include hs harray

theorem size_eq : v.size = v.value.items.length :=
  Value.length_items (hs.value ▸ harray) v

theorem items_removed (first last : Nat) :
    ((v.removed name first last stamp).toOption.map fun w => w.value.items) =
      if first ≤ last ∧ last < v.value.items.length then
        some (v.value.items.take first ++ v.value.items.drop (last + 1))
      else none := by
  unfold Variable.removed
  rw [items_changed harray]
  by_cases hreversed : last < first
  · rw [if_pos hreversed, if_neg (by omega)]
    rfl
  unfold checkIndex
  rw [size_eq hs harray]
  by_cases hrange : v.value.items.length ≤ last
  · rw [if_neg hreversed, if_pos hrange, if_neg (by omega)]
    rfl
  · rw [if_neg hreversed, if_neg hrange, if_pos (by omega)]
    exact Value.items_removeItems (hs.value ▸ harray) first last

/-- Taking off a number of entries is removing a stretch, except when there are none to take off. -/
theorem items_shortened (count : Nat) (complaint : Variable → String)
    (first last : Variable → Nat) (hfirst : 0 < count → count ≤ v.size → first v ≤ last v)
    (hlast : 0 < count → count ≤ v.size → last v < v.size) :
    ((v.shortened name count complaint first last stamp).toOption.map fun w => w.value.items) =
      if count = 0 then some v.value.items
      else if count ≤ v.value.items.length then
        some (v.value.items.take (first v) ++ v.value.items.drop (last v + 1))
      else none := by
  have hsize := size_eq hs harray
  unfold Variable.shortened Variable.asArray
  rw [if_pos harray]
  by_cases hzero : count = 0
  · subst hzero
    rfl
  rw [if_neg hzero]
  by_cases hcount : v.size < count
  · rw [if_neg (by omega)]
    simp only [bind, Except.bind, hcount, ↓reduceIte]
    rfl
  · rw [if_pos (by omega)]
    simp only [bind, Except.bind, hcount, hzero, ↓reduceIte]
    refine (items_removed hs harray (first v) (last v)).trans (if_pos ⟨?_, ?_⟩)
    · exact hfirst (by omega) (by omega)
    · rw [← hsize]
      exact hlast (by omega) (by omega)

end Removal

/-- An array follows its items: an operation succeeds exactly when something becomes of the items, and
then the array has these. -/
theorem items_become (hop : op.isListing = true) (hs : v.Sound) (harray : v.type.isArray = true) :
    ((op.become v).toOption.map fun w => w.value.items) = op.onList? v.type v.value.items := by
  have hvalue : v.value.type.isArray = true := hs.value ▸ harray
  have hsize := size_eq hs harray
  have hentry : v.value.type.entry = v.type.entry := by rw [hs.value]
  cases op
  case append name owner item stamp =>
    refine (items_changed harray _).trans ?_
    rw [Value.appendItem, Value.items_changeWith hvalue _ _ (by simp), hentry]
    rfl
  case extend name owner more stamp =>
    refine (items_changed harray _).trans ?_
    rw [Value.items_extendItems hvalue, hentry]
    rfl
  case insert name owner index item stamp =>
    refine (items_changed harray _).trans ?_
    simp only [Operation.onList?]
    by_cases hindex : v.size < index
    · rw [if_pos hindex, if_neg (by omega)]
      rfl
    · rw [if_neg hindex, if_pos (by omega), Value.insertItem,
        Value.items_changeWith hvalue _ _ (by simp [List.map_take, List.map_drop]), hentry]
      simp
  case modify name owner index item stamp =>
    simp only [Operation.become, Operation.onList?, Variable.asArray, if_pos harray, checkIndex]
    by_cases hindex : v.size ≤ index
    · rw [if_neg (by omega)]
      simp only [bind, Except.bind, if_pos hindex]
      rfl
    · have hreplace : (v.value.replaceItem name index item).toOption.map Value.items = _ :=
        Value.items_changeWith hvalue item (fun l x => l.set index x) (by simp [List.map_set])
      rw [if_pos (by omega), ← hentry, ← hreplace]
      simp only [bind, Except.bind, if_neg hindex]
      cases v.value.replaceItem name index item <;> rfl
  case remove name owner first last stamp => exact items_removed hs harray first last
  case truncate name owner count stamp =>
    refine (items_shortened hs harray count _ _ _ (by omega) (by omega)).trans ?_
    simp only [Operation.onList?, hsize]
    by_cases hzero : count = 0
    · simp [hzero]
    · rw [if_neg hzero]
      by_cases hcount : count ≤ v.value.items.length
      · have hnone : v.value.items.length ≤ v.value.items.length - 1 + 1 := by omega
        rw [if_pos hcount, if_pos hcount, List.drop_eq_nil_of_le hnone, List.append_nil]
      · rw [if_neg hcount, if_neg hcount]
  case pop name owner count stamp =>
    refine (items_shortened hs harray count _ _ _ (by omega) (by omega)).trans ?_
    simp only [Operation.onList?]
    by_cases hzero : count = 0
    · simp [hzero]
    · rw [if_neg hzero, Nat.sub_add_cancel (by omega)]
      rfl
  all_goals cases hop

end Store

/-! ### Bounds -/

/-- A checked operation that breaks off where a position lies outside an array or a difference would
fall below zero. -/
abbrev Bounded := ExceptT Fault Option

namespace Bounded

variable {α β : Type}

/-- An operation that uses no position. -/
def checked (x : Checked α) : Bounded α :=
  ExceptT.mk (some x)

def require (p : Prop) [Decidable p] : Bounded Unit :=
  ExceptT.mk (if p then some (.ok ()) else none)

def minus (a b : Nat) : Bounded Nat := do
  require (b ≤ a)
  return a - b

theorem require_of {p : Prop} [Decidable p] (h : p) : require p = pure () := by
  unfold require
  rw [if_pos h]
  rfl

theorem minus_of {a b : Nat} (h : b ≤ a) : minus a b = pure (a - b) := by
  unfold minus
  rw [require_of h]
  rfl

/-- What never breaks off after an operation that uses no position never breaks off at all. -/
theorem checked_bind {x : Checked α} {f : α → Bounded β} {g : α → Checked β}
    (h : ∀ a, x = .ok a → f a = checked (g a)) : (checked x >>= f) = checked (x >>= g) := by
  cases x with
  | error e => rfl
  | ok a => exact h a rfl

end Bounded

namespace Variable

open Bounded

/-- The array without the entries from `first` to `last`, which are to be there. -/
def removedInBounds (name : String) (first last : Nat) (stamp : Stamp) (v : Variable) :
    Bounded Variable := do
  let v ← checked (v.asArray name)
  if last < first then
    checked (Checked.fail .runtime s!"{name}[{first}-{last}] is reversed")
  checked (Store.checkIndex name last v)
  require (first ≤ last + 1 ∧ last + 1 ≤ v.value.items.length)
  return v.holding (← checked (v.value.removeItems name first last)) stamp

/-- The array without a number of entries, where they stand being computed within bounds. -/
def shortenedInBounds (name : String) (count : Nat) (complaint : Variable → String)
    (first last : Variable → Bounded Nat) (stamp : Stamp) (v : Variable) : Bounded Variable := do
  let v ← checked (v.asArray name)
  if v.size < count then
    checked (Checked.fail .runtime (complaint v))
  if count = 0 then return v
  v.removedInBounds name (← first v) (← last v) stamp

end Variable

namespace Store

open Bounded

namespace Operation

/-- What the operation makes of the variable that it is called on, its positions being used and its
differences taken within bounds only. -/
def inBounds (v : Variable) : Operation → Bounded Variable
  | insert name _ index item stamp => do
    let v ← checked (v.asArray name)
    if v.size < index then
      checked (Checked.fail .runtime
        s!"{name}[{index}] is out of range for insert (size {v.size})")
    require (index ≤ v.value.items.length)
    return v.holding (← checked (v.value.insertItem name index item)) stamp
  | modify name _ index item stamp => do
    let v ← checked (v.asArray name)
    checked (checkIndex name index v)
    require (index < v.value.items.length)
    let value ← checked (v.value.replaceItem name index item)
    return { v with value, written := some stamp }
  | remove name _ first last stamp => v.removedInBounds name first last stamp
  | truncate name _ count stamp =>
    v.shortenedInBounds name count
      (fun v => s!"cannot truncate {count} entries from {name} (size {v.size})")
      (fun v => minus v.size count) (fun v => minus v.size 1) stamp
  | pop name _ count stamp =>
    v.shortenedInBounds name count
      (fun v => s!"cannot pop {count} entries from {name} (size {v.size})")
      (fun _ => pure 0) (fun _ => minus count 1) stamp
  | op => checked (op.become v)

/-- The store after the operation, with the bounds kept. -/
def runInBounds (s : Store) (op : Operation) : Bounded Store := do
  let v ← checked (s.writable op.name op.owner)
  return s.replace op.name op.owner (← op.inBounds v)

end Operation

variable {s : Store} {v : Variable} {op : Operation} {slot : Slot} {name : String} {stamp : Stamp}

theorem removedInBounds_eq (hs : v.Sound) (first last : Nat) :
    v.removedInBounds name first last stamp = checked (v.removed name first last stamp) := by
  unfold Variable.removedInBounds Variable.removed Variable.changed
  refine checked_bind fun u hu => ?_
  obtain ⟨rfl, harray⟩ := Variable.asArray_ok hu
  by_cases hreversed : last < first
  · simp only [if_pos hreversed]
    rfl
  simp only [if_neg hreversed]
  by_cases hrange : u.size ≤ last
  · simp only [checkIndex, if_pos hrange]
    rfl
  have hsize := size_eq hs harray
  simp only [checkIndex, if_neg hrange]
  rw [require_of (by omega)]
  exact checked_bind fun value _ => rfl

theorem shortenedInBounds_eq (hs : v.Sound) (count : Nat) (complaint : Variable → String)
    {first last : Variable → Nat} {first' last' : Variable → Bounded Nat}
    (hfirst : 0 < count → count ≤ v.size → first' v = pure (first v))
    (hlast : 0 < count → count ≤ v.size → last' v = pure (last v)) :
    v.shortenedInBounds name count complaint first' last' stamp =
      checked (v.shortened name count complaint first last stamp) := by
  unfold Variable.shortenedInBounds Variable.shortened
  refine checked_bind fun u hu => ?_
  obtain ⟨rfl, -⟩ := Variable.asArray_ok hu
  by_cases hcount : u.size < count
  · simp only [if_pos hcount]
    rfl
  simp only [if_neg hcount]
  by_cases hzero : count = 0
  · simp only [if_pos hzero]
    rfl
  simp only [if_neg hzero]
  rw [hfirst (by omega) (by omega), hlast (by omega) (by omega)]
  exact removedInBounds_eq hs ..

/-- No position of an operation lies outside the array, and no difference falls below zero. -/
theorem inBounds_eq (hs : v.Sound) (op : Operation) : op.inBounds v = checked (op.become v) := by
  cases op
  case insert name owner index item stamp =>
    refine checked_bind fun u hu => ?_
    obtain ⟨rfl, harray⟩ := Variable.asArray_ok hu
    have hsize := size_eq hs harray
    by_cases hindex : u.size < index
    · simp only [if_pos hindex]
      rfl
    simp only [if_neg hindex]
    rw [require_of (by omega)]
    exact checked_bind fun value _ => rfl
  case modify name owner index item stamp =>
    refine checked_bind fun u hu => ?_
    obtain ⟨rfl, harray⟩ := Variable.asArray_ok hu
    have hsize := size_eq hs harray
    by_cases hindex : u.size ≤ index
    · simp only [checkIndex, if_pos hindex]
      rfl
    simp only [checkIndex, if_neg hindex]
    rw [require_of (by omega)]
    exact checked_bind fun _ _ => checked_bind fun value _ => rfl
  case remove name owner first last stamp => exact removedInBounds_eq hs first last
  case truncate name owner count stamp =>
    exact shortenedInBounds_eq hs count _ (fun _ hcount => minus_of hcount)
      fun hpos hcount => minus_of (by omega)
  case pop name owner count stamp =>
    exact shortenedInBounds_eq hs count _ (fun _ _ => rfl) fun hpos _ => minus_of hpos
  all_goals rfl

theorem runInBounds_eq (halloc : op.isAllocation = false)
    (hs : ∀ v, s.writable op.name op.owner = .ok v → v.Sound) :
    op.runInBounds s = checked (op.run s) := by
  rw [op.run_eq halloc]
  unfold Operation.runInBounds
  refine checked_bind fun v hv => ?_
  rw [inBounds_eq (hs v hv) op]
  exact checked_bind fun w _ => rfl

/-! ### Sequences -/

theorem isAllocation_of_isListing (h : op.isListing = true) : op.isAllocation = false := by
  cases op
  case allocate => cases h
  all_goals rfl

section Slot

variable (hv : s.at? slot = some v) (hs : v.Sound) (harray : v.type.isArray = true)

include hv hs harray

/-- An operation succeeds exactly when something becomes of the items. -/
theorem run_ok_iff (hop : op.isListing = true) (hslot : s.slot? op.name op.owner = some slot) :
    (∃ t, op.run s = .ok t) ↔ ∃ l, op.onList? v.type v.value.items = some l := by
  rw [Call.run_of_slot (isAllocation_of_isListing hop) hslot hv, ← items_become hop hs harray]
  cases op.become v with
  | error f => exact iff_of_false nofun nofun
  | ok w => exact iff_of_true ⟨_, rfl⟩ ⟨_, rfl⟩

theorem next_listing (hop : op.isListing = true) (hslot : s.slot? op.name op.owner = some slot) :
    ∃ w, (Call.operation op).next s = s.fill slot w ∧ w.Sound ∧ w.type = v.type ∧
      w.value.items = (op.onList? v.type v.value.items).getD v.value.items := by
  simp only [Call.next_perform, Call.run_of_slot (isAllocation_of_isListing hop) hslot hv,
    ← items_become hop hs harray]
  cases hbecome : op.become v with
  | error f => exact ⟨v, (fill_self hv).symm, hs, rfl, rfl⟩
  | ok w =>
    have hturns := op.turns hs hbecome
    exact ⟨w, rfl, hturns.sound hs, hturns.allocation.1, rfl⟩

/-- Operations one after another change nothing but the array, and it follows its items. -/
theorem after_listings {ops : List Operation}
    (hops : ∀ op ∈ ops, op.isListing = true ∧ s.slot? op.name op.owner = some slot) :
    ∃ w, s.after (ops.map .operation) = s.fill slot w ∧ w.Sound ∧ w.type = v.type ∧
      w.value.items = itemsAfter v.type v.value.items ops := by
  induction ops generalizing s v with
  | nil => exact ⟨v, (fill_self hv).symm, hs, rfl, rfl⟩
  | cons op ops ih =>
    obtain ⟨⟨hop, hslot⟩, hrest⟩ := List.forall_mem_cons.mp hops
    obtain ⟨u, hnext, husound, hutype, huitems⟩ := next_listing hv hs harray hop hslot
    have hsome : (s.at? slot).isSome = true := by
      rw [hv]
      rfl
    obtain ⟨w, hafter, hwsound, hwtype, hwitems⟩ :=
      ih (s := s.fill slot u) (by simp) husound (hutype ▸ harray) fun op' hop' =>
        ⟨(hrest op' hop').1, (slot?_fill hsome u ..).trans (hrest op' hop').2⟩
    refine ⟨w, ?_, hwsound, hwtype.trans hutype, ?_⟩
    · rw [List.map_cons, after_cons, hnext, hafter, fill_fill]
    · rw [hwitems, hutype, huitems]
      rfl

end Slot

/-- Operations on an array, one after another and with any positions and counts: the array ends up with
what they make of the list of its items, its size is the length of that list, and nothing else of the
store is changed. Each of them succeeds exactly when something becomes of the list that is there when
its turn comes, and uses no position outside the array and takes no difference below zero. -/
theorem lists_of_operations (s : Store) (slot : Slot) (v : Variable) (ops : List Operation)
    (hv : s.at? slot = some v) (hs : v.Sound) (harray : v.type.isArray = true)
    (hops : ∀ op ∈ ops, op.isListing = true ∧ s.slot? op.name op.owner = some slot) :
    (∃ w, s.after (ops.map .operation) = s.fill slot w ∧ w.type = v.type ∧ w.Sound ∧
      w.value.items = itemsAfter v.type v.value.items ops ∧
      ∀ name owner, s.slot? name owner = some slot →
        (s.fill slot w).size name owner = .ok (itemsAfter v.type v.value.items ops).length) ∧
    ∀ before op rest, ops = before ++ op :: rest →
      ((∃ t, op.run (s.after (before.map .operation)) = .ok t) ↔
        ∃ l, op.onList? v.type (itemsAfter v.type v.value.items before) = some l) ∧
      op.runInBounds (s.after (before.map .operation)) =
        checked (op.run (s.after (before.map .operation))) := by
  have hsome : (s.at? slot).isSome = true := by
    rw [hv]
    rfl
  constructor
  · obtain ⟨w, hafter, hwsound, hwtype, hwitems⟩ := after_listings hv hs harray hops
    refine ⟨w, hafter, hwtype, hwsound, hwitems, fun name owner hslot => ?_⟩
    have hfind : (s.fill slot w).find? name owner = some w := by
      rw [(find?_of_slot ((slot?_fill hsome w name owner).trans hslot)).1]
      simp
    unfold size get
    rw [hfind, ← hwitems, ← size_eq hwsound (hwtype ▸ harray)]
    rfl
  · rintro before op rest rfl
    obtain ⟨hbefore, ⟨hop, hslot⟩, -⟩ : _ ∧ _ ∧ _ := by
      simpa only [List.forall_mem_append, List.forall_mem_cons] using hops
    obtain ⟨u, hafter, husound, hutype, huitems⟩ := after_listings hv hs harray hbefore
    have hslot' : (s.fill slot u).slot? op.name op.owner = some slot :=
      (slot?_fill hsome u ..).trans hslot
    rw [hafter, ← huitems, ← hutype]
    refine ⟨run_ok_iff (by simp) husound (hutype ▸ harray) hop hslot',
      runInBounds_eq (isAllocation_of_isListing hop) fun x hx => ?_⟩
    obtain ⟨slot', hslot'', hx⟩ := writable_ok.mp hx
    obtain rfl : slot' = slot := Option.some.inj (hslot''.symm.trans hslot')
    rw [at?_fill, if_pos rfl] at hx
    exact Option.some.inj hx ▸ husound

/-- An array of two texts. -/
def draft : Variable where
  type := .strings
  scope := .owned
  owner := "PART"
  value := .strings ["a", "b"]

def draftStore : Store where
  locals := [(("PART", "LINES"), draft)]
  cells := Cells.ofModulus 100

/-- An item put in at the end, one that is too far out, and two entries taken off at the front. -/
def redraft : List Operation :=
  [.insert "LINES" "PART" 2 (.integer 7) ⟨1, Moment.epoch⟩,
    .modify "LINES" "PART" 3 (.string "c") ⟨2, Moment.epoch⟩,
    .pop "LINES" "PART" 2 ⟨3, Moment.epoch⟩]

theorem lists_of_operations_redraft :
    (∀ op ∈ redraft, op.isListing = true ∧
      draftStore.slot? op.name op.owner = some (.owned "PART" "LINES")) ∧
    ∃ w, draftStore.after (redraft.map .operation) = draftStore.fill (.owned "PART" "LINES") w ∧
      w.value.items = [.string "7"] := by
  have hops : ∀ op ∈ redraft, op.isListing = true ∧
      draftStore.slot? op.name op.owner = some (.owned "PART" "LINES") := by
    simp only [redraft, List.forall_mem_cons]
    exact ⟨⟨rfl, rfl⟩, ⟨rfl, rfl⟩, ⟨rfl, rfl⟩, nofun⟩
  obtain ⟨⟨w, hafter, -, -, hitems, -⟩, -⟩ :=
    lists_of_operations draftStore (.owned "PART" "LINES") draft redraft rfl ⟨rfl, nofun⟩ rfl hops
  exact ⟨hops, w, hafter, hitems⟩

end Store

end CommandScript
