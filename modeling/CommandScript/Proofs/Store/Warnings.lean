import CommandScript.Memory
import CommandScript.Proofs.Script.Recording
import CommandScript.Proofs.Store.History
import CommandScript.Proofs.Store.Lists

/-!
# Reads before the first write

A read of a variable gives what the latest write gave the variable, or else the zero of its type. What a
write gives is said of the operation alone (`Operation.stored?`): the value written, the zero of the type,
or the array whose items are those before with the change of the operation to them. A read
deserves a warning if nothing has written the variable and no read of it has been warned about before:
a warning leaves a mark, and nothing takes a mark or the stamp of a write away (`Variable.settled`). So
there is one warning for a variable whose first read comes before its first write, and none for any
other one (`count_warnings`), and the log holds just these warnings (`Memory.warn_after`).
-/

namespace CommandScript

/-- A read of the variable deserves no warning any more. -/
def Variable.settled (v : Variable) : Bool :=
  v.written.isSome || v.warned

/-! ### What operations store -/

namespace Value

/-- The array of type `t` that has the items. -/
def ofItems (t : ValueType) (l : List Value) : Value :=
  match t with
  | .integers => .integers (l.filterMap fun v => v.toInteger.toOption)
  | _ => .strings (l.map toText)

/-- The items whose mark is set. -/
def marked (mask : List Bool) (l : List Value) : List Value :=
  (l.zip mask).filterMap fun e => if e.2 then some e.1 else none

theorem ofItems_items {v : Value} (h : v.type.isArray = true) : ofItems v.type v.items = v := by
  cases v
  case strings l =>
    change strings ((l.map string).map toText) = _
    rw [List.map_map]
    exact congrArg strings (List.map_id l)
  case integers l =>
    change integers ((l.map integer).filterMap _) = _
    rw [List.filterMap_map]
    exact congrArg integers (List.filterMap_some)
  all_goals cases h

/-- What a mask lets through are the items whose mark is set. -/
theorem marked_map {α : Type} (f : α → Value) (mask : List Bool) (l : List α) :
    marked mask (l.map f) = (selected mask l).map f := by
  unfold marked selected
  induction l generalizing mask with
  | nil => rfl
  | cons x l ih =>
    cases mask with
    | nil => rfl
    | cons b mask => cases b <;> simp [ih]

end Value

namespace Store

/-- What an operation stores in the variable where it is a write and succeeds. -/
def Operation.stored? (v : Variable) : Operation → Option Value
  | write _ _ value _ => some value
  | clear .. => some v.type.zero
  | applyFilter .. => v.mask.map fun mask => .ofItems v.type (Value.marked mask v.value.items)
  | op => (op.onList? v.type v.value.items).map (Value.ofItems v.type)

section Stored

variable {v w : Variable} {op : Operation}

theorem isArray_of_become (hop : op.isListing = true) (h : op.become v = .ok w) :
    v.type.isArray = true := by
  have harray {name : String} {k : Variable → Checked Variable}
      (h : (v.asArray name >>= k) = .ok w) : v.type.isArray = true := by
    obtain ⟨u, hu, -⟩ := Checked.bind_ok.mp h
    exact (Variable.asArray_ok hu).2
  cases op <;> cases hop <;> exact harray h

theorem ofItems_filtered {mask : List Bool} (hs : v.Sound) (harray : v.type.isArray = true)
    (hmask : v.mask = some mask) :
    Value.ofItems v.type (Value.marked mask v.value.items) = v.filtered := by
  have hitems : v.filtered.items = Value.marked mask v.value.items := by
    have hvalue : v.value.type.isArray = true := hs.value ▸ harray
    unfold Variable.filtered
    rw [hmask]
    cases hv : v.value
    case strings | integers => exact (Value.marked_map ..).symm
    all_goals
      rw [hv] at hvalue
      cases hvalue
  have htype : v.filtered.type = v.type := v.type_filtered.trans hs.value
  rw [← hitems, ← htype, Value.ofItems_items (htype ▸ harray)]

/-- What a write makes of a variable holds what it stores. -/
theorem stored?_of_become (hs : v.Sound) (h : op.become v = .ok w) (hwrites : op.writes v = true) :
    op.stored? v = some w.value := by
  have listing (hop : op.isListing = true) :
      (op.onList? v.type v.value.items).map (Value.ofItems v.type) = some w.value := by
    have harray := isArray_of_become hop h
    have hturns := op.turns hs h
    have htype : w.value.type = v.type := (hturns.sound hs).value.trans hturns.allocation.1
    rw [← items_become hop hs harray, h]
    change some (Value.ofItems v.type w.value.items) = _
    rw [← htype, Value.ofItems_items (htype ▸ harray)]
  cases op
  case write name owner value stamp =>
    simp only [Operation.become] at h
    split at h <;> cases h
    rfl
  case clear =>
    cases h
    rfl
  case applyFilter name owner stamp =>
    obtain ⟨mask, hmask⟩ := Option.isSome_iff_exists.mp hwrites
    simp only [Operation.become, Checked.bind_ok] at h
    obtain ⟨u, hu, h⟩ := h
    obtain ⟨rfl, harray⟩ := Variable.asArray_ok hu
    rw [hmask] at h
    cases h
    simp only [Operation.stored?, hmask, Option.map_some, ofItems_filtered hs harray hmask]
    rfl
  case allocate | filter | resetFilter => cases hwrites
  all_goals exact listing rfl

end Stored

/-! ### The latest value -/

/-- The value that the call gives the variable in the slot, if it is a write to it that succeeds. -/
def Call.gives? (s : Store) (slot : Slot) : Call → Option Value
  | operation op =>
    if s.slot? op.name op.owner = some slot ∧ (op.run s).isOk then
      (s.at? slot).bind fun v => if op.writes v then op.stored? v else none
    else none
  | _ => none

/-- The value that the latest write among the calls gives the variable in the slot. -/
def latest? (s : Store) (slot : Slot) : List Call → Option Value
  | [] => none
  | call :: calls => ((call.next s).latest? slot calls).or (call.gives? s slot)

variable {s t : Store} {slot : Slot} {v w : Variable} {call : Call} {calls : List Call}
  {op : Operation} {name owner : String} {now : Sources}

/-- A write that succeeds has made something of the variable. -/
theorem Call.Writes.exists_become (h : call.Writes s slot) (hv : s.at? slot = some v) :
    ∃ op w, call = .operation op ∧ s.slot? op.name op.owner = some slot ∧ op.writes v = true ∧
      op.become v = .ok w ∧ (call.next s).at? slot = some w := by
  obtain ⟨op, t, u, rfl, hrun, hslot, hu, hwrites⟩ := h
  obtain rfl : v = u := Option.some.inj (hv.symm.trans hu)
  cases halloc : op.isAllocation with
  | true =>
    cases op
    case allocate => cases hwrites
    all_goals cases halloc
  | false =>
    have hbecome := hrun
    rw [run_of_slot halloc hslot hv] at hbecome
    obtain ⟨w, hw, rfl⟩ := Checked.map_ok.mp hbecome
    refine ⟨op, w, rfl, hslot, hwrites, hw, ?_⟩
    simp [next_perform, hrun]

/-- A write that succeeds gives the variable what it stores there. -/
theorem Call.Writes.gives?_eq (h : call.Writes s slot) (hv : s.at? slot = some v) (hs : v.Sound)
    (hw : (call.next s).at? slot = some w) : call.gives? s slot = some w.value := by
  obtain ⟨op, u, rfl, hslot, hwrites, hbecome, hu⟩ := h.exists_become hv
  obtain rfl : w = u := Option.some.inj (hw.symm.trans hu)
  have hok : (op.run s).isOk = true := by
    obtain ⟨op', t, u, ⟨⟩, hrun, -⟩ := h
    rw [hrun]
    rfl
  simp [gives?, hslot, hok, hv, hwrites, stored?_of_become hs hbecome hwrites]

/-- A call gives the variable a value just if it is a write to it that succeeds. -/
theorem Call.isSome_gives? (hs : ∀ v, s.at? slot = some v → v.Sound) :
    (call.gives? s slot).isSome = true ↔ call.Writes s slot := by
  constructor
  · intro h
    cases call with
    | read | cells => cases h
    | operation op =>
      obtain ⟨value, hgives⟩ := Option.isSome_iff_exists.mp h
      simp only [gives?, Option.ite_none_right_eq_some, Option.bind_eq_some_iff] at hgives
      obtain ⟨⟨hslot, hok⟩, v, hv, hwrites, -⟩ := hgives
      cases hrun : op.run s with
      | error f =>
        rw [hrun] at hok
        cases hok
      | ok t => exact ⟨op, t, v, rfl, hrun, hslot, hv, hwrites⟩
  · intro h
    obtain ⟨-, -, v, -, -, -, hv, -⟩ := id h
    obtain ⟨op, w, rfl, -, -, -, hw⟩ := h.exists_become hv
    rw [h.gives?_eq hv (hs v hv) hw]
    rfl

/-- Calls leave the variable in a slot sound, or allocate one that is. -/
theorem sound_next (hs : ∀ v, s.at? slot = some v → v.Sound) (call : Call) (w : Variable)
    (hw : (call.next s).at? slot = some w) : w.Sound := by
  cases hv : s.at? slot with
  | none =>
    obtain ⟨type, scope, owner, rfl⟩ := eq_fresh_of_next hv hw
    exact Variable.sound_fresh ..
  | some v =>
    obtain ⟨isWrite, u, hu, hturns, -⟩ := exists_turns hv (hs v hv) call
    obtain rfl : w = u := Option.some.inj (hw.symm.trans hu)
    exact hturns.sound (hs v hv)

/-- There is a latest value just if a write has succeeded. -/
theorem isSome_latest? (hs : ∀ v, s.at? slot = some v → v.Sound) :
    (s.latest? slot calls).isSome = true ↔ s.Wrote slot calls := by
  induction calls generalizing s with
  | nil => exact iff_of_false nofun not_wrote_nil
  | cons call calls ih =>
    rw [latest?, Option.isSome_or, Bool.or_eq_true, ih (sound_next hs call), Call.isSome_gives? hs,
      wrote_cons, or_comm]

/-- After a call a variable holds what the call gives it, or what it held before. -/
theorem value_next (hv : s.at? slot = some v) (hs : v.Sound) (call : Call) :
    ∃ w, (call.next s).at? slot = some w ∧ w.Sound ∧ w.type = v.type ∧
      w.value = (call.gives? s slot).getD v.value := by
  obtain ⟨isWrite, w, hw, hturns, hwrites⟩ := exists_turns hv hs call
  refine ⟨w, hw, hturns.sound hs, hturns.allocation.1, ?_⟩
  have hsound (u : Variable) (hu : s.at? slot = some u) : u.Sound :=
    Option.some.inj (hv.symm.trans hu) ▸ hs
  cases isWrite with
  | true =>
    rw [(hwrites.mp rfl).gives?_eq hv hs hw]
    rfl
  | false =>
    have hnone : call.gives? s slot = none := by
      refine Option.not_isSome_iff_eq_none.mp fun hsome => ?_
      cases hwrites.mpr ((Call.isSome_gives? hsound).mp hsome)
    rw [hnone]
    cases hturns <;> rfl

theorem value_after (hv : s.at? slot = some v) (hs : v.Sound) (calls : List Call) :
    ∃ w, (s.after calls).at? slot = some w ∧ w.type = v.type ∧
      w.value = (s.latest? slot calls).getD v.value := by
  induction calls generalizing s v with
  | nil => exact ⟨v, hv, rfl, rfl⟩
  | cons call calls ih =>
    obtain ⟨u, hu, hsound, htype, hvalue⟩ := value_next hv hs call
    obtain ⟨w, hw, htype', hvalue'⟩ := ih hu hsound
    refine ⟨w, hw, htype'.trans htype, ?_⟩
    rw [hvalue', hvalue, latest?]
    cases (call.next s).latest? slot calls <;> rfl

/-- A variable that was not there holds the latest value that was written, or the zero of its type. -/
theorem value_of_latest (hnone : s.at? slot = none) (hv : (s.after calls).at? slot = some v) :
    v.value = (s.latest? slot calls).getD v.type.zero := by
  induction calls generalizing s with
  | nil => cases hnone.symm.trans hv
  | cons call calls ih =>
    have hgives : call.gives? s slot = none := by
      cases call with
      | read | cells => rfl
      | operation op => simp [Call.gives?, hnone]
    rw [latest?, hgives, Option.or_none]
    cases hnext : (call.next s).at? slot with
    | none => exact ih hnext hv
    | some u =>
      obtain ⟨type, scope, owner, rfl⟩ := eq_fresh_of_next hnone hnext
      obtain ⟨w, hw, htype, hvalue⟩ := value_after hnext (Variable.sound_fresh ..) calls
      obtain rfl : v = w := Option.some.inj (hv.symm.trans hw)
      rw [hvalue, htype]
      rfl

/-- A read of a variable gives its value, with a warning unless the variable is settled. -/
theorem read_of_slot (hslot : s.slot? name owner = some slot) (hv : s.at? slot = some v)
    (now : Sources) : ∃ r t, s.read now name owner = .ok (r, t) ∧ r.value = v.value ∧
      r.warning = if v.settled then none else
        some s!"${name} read before it was written; using {v.type.zero}" := by
  have hget : s.get name owner = .ok v := by
    unfold get
    rw [(find?_of_slot hslot).1, hv]
  have hunsettled : (v.written.isNone && !v.warned) = !v.settled := by
    cases hwritten : v.written <;> simp [Variable.settled, hwritten]
  rw [read_eq, unreserved_of_slot hslot, hget]
  change ∃ r t, (if (v.written.isNone && !v.warned) = true then _ else _) = _ ∧ _
  rw [hunsettled]
  cases v.settled
  · exact ⟨_, _, rfl, rfl, rfl⟩
  · exact ⟨_, _, rfl, rfl, rfl⟩

/-! ### Warnings -/

/-- The warning that the call deserves, and the variable that it is about. -/
def Call.warning? (s : Store) : Call → Option (Slot × String)
  | read now name owner => do
    let slot ← s.slot? name owner
    let (reading, _) ← (s.read now name owner).toOption
    let warning ← reading.warning
    return (slot, warning)
  | _ => none

/-- The warnings that the calls deserve when their turn comes, in order. -/
def warnings (s : Store) : List Call → List (Slot × String)
  | [] => []
  | call :: calls => (call.warning? s).toList ++ (call.next s).warnings calls

/-- The number of warnings about the variable in the slot. -/
def warningCount (s : Store) (slot : Slot) (calls : List Call) : Nat :=
  (s.warnings calls).countP (·.1 = slot)

/-- The call reads the variable in the slot. -/
def Call.Reads (s : Store) (slot : Slot) (call : Call) : Prop :=
  ∃ now name owner, call = .read now name owner ∧ s.slot? name owner = some slot

/-- One of the calls reads the variable in the slot, and no write to it has succeeded by then. -/
def ReadUnwritten (s : Store) (slot : Slot) (calls : List Call) : Prop :=
  ∃ before call rest, calls = before ++ call :: rest ∧ call.Reads (s.after before) slot ∧
    ¬s.Wrote slot before

theorem not_readUnwritten_nil : ¬s.ReadUnwritten slot [] := by
  rintro ⟨before, call, rest, h, -⟩
  simp at h

theorem readUnwritten_cons : s.ReadUnwritten slot (call :: calls) ↔
    call.Reads s slot ∨ ¬call.Writes s slot ∧ (call.next s).ReadUnwritten slot calls := by
  constructor
  · rintro ⟨before, call', rest, h, hreads, hwrote⟩
    cases before with
    | nil =>
      cases h
      exact .inl hreads
    | cons first before =>
      cases h
      rw [wrote_cons, not_or] at hwrote
      exact .inr ⟨hwrote.1, before, call', rest, rfl, hreads, hwrote.2⟩
  · rintro (hreads | ⟨hwrites, before, call', rest, rfl, hreads, hwrote⟩)
    · exact ⟨[], call, calls, rfl, hreads, not_wrote_nil⟩
    · exact ⟨call :: before, call', rest, rfl, hreads,
        fun h => (wrote_cons.mp h).elim hwrites hwrote⟩

theorem warningCount_cons : s.warningCount slot (call :: calls) =
    (call.warning? s).toList.countP (·.1 = slot) + (call.next s).warningCount slot calls :=
  List.countP_append

/-- A warning is about a variable that is read and is not settled. -/
theorem Call.warning?_count (hv : ∀ v, s.at? slot = some v → v.settled = true ∨ ¬call.Reads s slot) :
    (call.warning? s).toList.countP (·.1 = slot) = 0 := by
  cases call with
  | operation | cells => rfl
  | read now name owner =>
    simp only [warning?]
    cases hslot : s.slot? name owner with
    | none => rfl
    | some other =>
      obtain ⟨u, hu⟩ := Option.isSome_iff_exists.mp (find?_of_slot hslot).2
      obtain ⟨r, t, hread, -, hwarning⟩ := read_of_slot hslot hu now
      by_cases hother : other = slot
      · subst hother
        rcases hv u hu with hsettled | hreads
        · rw [if_pos hsettled] at hwarning
          simp [hread, hwarning, Except.toOption]
        · exact absurd ⟨now, name, owner, rfl, hslot⟩ hreads
      · cases hsettled : u.settled <;> simp [hread, hwarning, hsettled, hother, Except.toOption]

end Store

namespace Variable

variable {v w : Variable} {isWrite : Bool} {name : String} {stamp : Stamp}

/-- Nothing unsettles a variable, and a write settles it. -/
theorem Turns.settled (h : v.Turns isWrite w) (hv : v.settled = true ∨ isWrite = true) :
    w.settled = true := by
  rcases hv with hv | rfl
  · cases h
    case keeps | masks => exact hv
    case warns => simp [Variable.settled]
    case holds | replaces => rfl
  · cases h <;> rfl

theorem warned_of_changed {change : Variable → Checked Value}
    (h : v.changed name stamp change = .ok w) : w.warned = v.warned := by
  unfold changed at h
  simp only [Checked.bind_ok, Checked.pure_ok] at h
  obtain ⟨u, hu, value, -, rfl⟩ := h
  obtain ⟨rfl, -⟩ := asArray_ok hu
  rfl

theorem warned_of_shortened {count : Nat} {complaint : Variable → String}
    {first last : Variable → Nat} (h : v.shortened name count complaint first last stamp = .ok w) :
    w.warned = v.warned := by
  unfold shortened at h
  rw [Checked.bind_ok] at h
  obtain ⟨u, hu, h⟩ := h
  obtain ⟨rfl, -⟩ := asArray_ok hu
  by_cases hlt : u.size < count
  · simp only [hlt, ↓reduceIte] at h
    cases h
  simp only [hlt, ↓reduceIte] at h
  split at h
  · cases h
    rfl
  · exact warned_of_changed h

end Variable

namespace Store

variable {s t : Store} {slot : Slot} {v w : Variable} {call : Call} {calls : List Call}
  {op : Operation}

/-- Only a read marks a variable. -/
theorem Operation.warned_of_become (h : op.become v = .ok w) : w.warned = v.warned := by
  cases op with
  | allocate | clear =>
    cases h
    rfl
  | write name owner value stamp =>
    simp only [become] at h
    split at h
    · cases h
    · cases h
      rfl
  | append | extend | insert | remove => exact Variable.warned_of_changed h
  | truncate | pop => exact Variable.warned_of_shortened h
  | modify name owner index item stamp =>
    simp only [become, Checked.bind_ok, Checked.pure_ok] at h
    obtain ⟨u, hu, -, -, value, -, rfl⟩ := h
    obtain ⟨rfl, -⟩ := Variable.asArray_ok hu
    rfl
  | filter name owner f =>
    simp only [become, Checked.bind_ok] at h
    obtain ⟨u, hu, h⟩ := h
    obtain ⟨rfl, -⟩ := Variable.asArray_ok hu
    split at h <;> cases h
    rfl
  | applyFilter name owner stamp =>
    simp only [become, Checked.bind_ok] at h
    obtain ⟨u, hu, h⟩ := h
    obtain ⟨rfl, -⟩ := Variable.asArray_ok hu
    split at h <;> cases h <;> rfl
  | resetFilter name owner =>
    simp only [become, Checked.bind_ok, Checked.pure_ok] at h
    obtain ⟨u, hu, rfl⟩ := h
    obtain ⟨rfl, -⟩ := Variable.asArray_ok hu
    rfl

/-- A call that neither reads nor writes a variable leaves it as settled as it was. -/
theorem settled_next (hv : s.at? slot = some v) (hs : v.Sound) (hreads : ¬call.Reads s slot)
    (hwrites : ¬call.Writes s slot) :
    ∃ w, (call.next s).at? slot = some w ∧ w.Sound ∧ w.settled = v.settled := by
  obtain ⟨isWrite, w, hw, hturns, hiff⟩ := exists_turns hv hs call
  have hwritten : w.written.isSome = v.written.isSome := by
    have hnot : isWrite = false := Bool.eq_false_iff.mpr fun h => hwrites (hiff.mp h)
    rw [hturns.written, hnot, Bool.or_false]
  have hwarned : w.warned = v.warned := by
    cases call with
    | operation op =>
      cases halloc : op.isAllocation with
      | true => rw [Option.some.inj ((Call.at?_next_allocation halloc hv).symm.trans hw)]
      | false =>
        rw [Call.at?_next, Call.puts?_operation halloc, hv, Option.bind_some] at hw
        cases hbecome : op.become v with
        | error f =>
          rw [hbecome] at hw
          rw [Option.some.inj ((ite_self _).symm.trans hw)]
        | ok u =>
          rw [hbecome] at hw
          split at hw
          · cases hw
            exact op.warned_of_become hbecome
          · cases hw
            rfl
    | read now name owner =>
      have hslot : (Call.read now name owner).slot? s ≠ some slot :=
        fun hslot => hreads ⟨now, name, owner, rfl, hslot⟩
      rw [Call.at?_next_of_ne hslot, hv] at hw
      rw [Option.some.inj hw]
    | cells new => rw [Option.some.inj (hv.symm.trans hw)]
  refine ⟨w, hw, hturns.sound hs, ?_⟩
  rw [Variable.settled, Variable.settled, hwritten, hwarned]

/-- A read settles a variable. -/
theorem settled_of_reads (hv : s.at? slot = some v) (hreads : call.Reads s slot)
    (hw : (call.next s).at? slot = some w) : w.settled = true := by
  obtain ⟨now, name, owner, rfl, hslot⟩ := hreads
  have hon : (Call.read now name owner).slot? s = some slot := hslot
  rw [Call.at?_next, if_pos hon, hv] at hw
  simp only [Call.puts?, hv, Option.bind_some] at hw
  split at hw
  · cases hw
    simp [Variable.settled]
  · rename_i hnot
    cases hw
    unfold Variable.settled
    cases hwritten : v.written <;> simp_all

/-- There is no warning about a variable that is settled. -/
theorem warningCount_of_settled (hv : s.at? slot = some v) (hs : v.Sound) (hsettled : v.settled = true)
    (calls : List Call) : s.warningCount slot calls = 0 := by
  induction calls generalizing s v with
  | nil => rfl
  | cons call calls ih =>
    obtain ⟨isWrite, w, hw, hturns, -⟩ := exists_turns hv hs call
    have hhead : (call.warning? s).toList.countP (·.1 = slot) = 0 := by
      refine Call.warning?_count fun u hu => .inl ?_
      obtain rfl : v = u := Option.some.inj (hv.symm.trans hu)
      exact hsettled
    rw [warningCount_cons, hhead, ih hw (hturns.sound hs) (hturns.settled (.inl hsettled))]

/-- About a variable that is not settled, or not there yet, there is one warning if it is read before it
is written, and else none. -/
theorem count_warnings (hs : ∀ v, s.at? slot = some v → v.Sound ∧ v.settled = false)
    (calls : List Call) :
    (s.ReadUnwritten slot calls → s.warningCount slot calls = 1) ∧
      (¬s.ReadUnwritten slot calls → s.warningCount slot calls = 0) := by
  induction calls generalizing s with
  | nil => exact ⟨fun h => absurd h not_readUnwritten_nil, fun _ => rfl⟩
  | cons call calls ih =>
    rw [readUnwritten_cons, warningCount_cons]
    by_cases hreads : call.Reads s slot
    · obtain ⟨now, name, owner, rfl, hslot⟩ := id hreads
      obtain ⟨v, hv⟩ := Option.isSome_iff_exists.mp (find?_of_slot hslot).2
      obtain ⟨hsound, hunsettled⟩ := hs v hv
      obtain ⟨r, t, hread, -, hwarning⟩ := read_of_slot hslot hv now
      obtain ⟨isWrite, w, hw, hturns, -⟩ := exists_turns hv hsound (.read now name owner)
      have hrest := warningCount_of_settled hw (hturns.sound hsound)
        (settled_of_reads hv hreads hw) calls
      refine ⟨fun _ => ?_, fun hnot => absurd (.inl hreads) hnot⟩
      rw [hrest]
      simp [Call.warning?, hslot, hread, hwarning, hunsettled, Except.toOption]
    · have hhead : (call.warning? s).toList.countP (·.1 = slot) = 0 :=
        Call.warning?_count fun _ _ => .inr hreads
      rw [hhead, Nat.zero_add, or_iff_right hreads]
      by_cases hwrites : call.Writes s slot
      · obtain ⟨op, t, v, -, -, -, hv, -⟩ := id hwrites
        obtain ⟨isWrite, w, hw, hturns, hiff⟩ := exists_turns hv (hs v hv).1 call
        refine ⟨fun h => absurd hwrites h.1, fun _ => ?_⟩
        exact warningCount_of_settled hw (hturns.sound (hs v hv).1)
          (hturns.settled (.inr (hiff.mpr hwrites))) calls
      · rw [and_iff_right hwrites]
        refine ih fun w hw => ?_
        cases hv : s.at? slot with
        | none =>
          obtain ⟨type, scope, owner, rfl⟩ := eq_fresh_of_next hv hw
          exact ⟨Variable.sound_fresh .., rfl⟩
        | some v =>
          obtain ⟨hsound, hunsettled⟩ := hs v hv
          obtain ⟨u, hu, husound, husettled⟩ := settled_next hv hsound hreads hwrites
          obtain rfl : w = u := Option.some.inj (hw.symm.trans hu)
          exact ⟨husound, husettled.trans hunsettled⟩

/-- What a read says is said about the variable that its name denotes. -/
theorem warning?_of_read {now : Sources} {name owner : String} {r : Reading}
    (h : s.read now name owner = .ok (r, t)) :
    ((Call.read now name owner).warning? s).map Prod.snd = r.warning := by
  cases hslot : s.slot? name owner with
  | some slot =>
    cases hwarning : r.warning <;> simp [Call.warning?, hslot, h, hwarning, Except.toOption]
  | none =>
    have hnone : (Call.read now name owner).warning? s = none := by simp [Call.warning?, hslot]
    rw [hnone]
    rw [read_eq] at h
    split at h
    · cases h
      rfl
    · rename_i hname
      rw [get, find?_of_no_slot hslot hname] at h
      cases h

end Store

/-! ### The log -/

namespace Memory

open Store

/-- The memory that a call hands back, which is made under the clock and with the random numbers that it
has with it. -/
def perform (m : Memory) : Call → Memory
  | .operation (.allocate scope type name owner) =>
    ((MemoryM.allocate scope type name owner).run m).2
  | .operation (.write name owner value stamp) =>
    ((MemoryM.write name owner value stamp.line).run { m with clock := stamp.moment }).2
  | .operation op => ((MemoryM.onStore op.perform).run m).2
  | .read now name owner =>
    ((MemoryM.read name owner).run { m with clock := now.clock, draw := now.draw }).2
  | .cells cells => { m with store := { m.store with cells } }

/-- The memory after the calls. -/
def after (m : Memory) (calls : List Call) : Memory :=
  calls.foldl perform m

/-- The memory has the store that the call leaves, and its log has the warning that the call
deserves behind the others. -/
def Performed (m : Memory) (call : Call) (n : Memory) : Prop :=
  n.store = call.next m.store ∧ n.log.messages .warn =
    m.log.messages .warn ++ (call.warning? m.store).toList.map Prod.snd

variable (m : Memory)

/-- The memory that an operation leaves where it succeeds, and else the memory as it was. -/
theorem run_atomic {α : Type} (x : MemoryM α) [Atomic x] :
    (x.run m).2 = (Prod.snd <$> outcome x m).toOption.getD m := by
  rw [Atomic.run_eq]
  rcases outcome x m with f | ⟨a, n⟩ <;> rfl

/-- An operation that reports no warning deserves none. -/
theorem performed_operation {n : Memory} {op : Operation}
    (hstore : n.store = (op.run m.store).toOption.getD m.store)
    (hlog : n.log.messages .warn = m.log.messages .warn) : m.Performed (.operation op) n := by
  have hnext : (Call.operation op).next m.store = (op.run m.store).toOption.getD m.store := by
    rw [Call.next_perform]
    cases op.run m.store <;> rfl
  exact ⟨hstore.trans hnext.symm, hlog.trans (List.append_nil _).symm⟩

theorem performed_allocate (scope : Scope) (type : ValueType) (name owner : String) :
    m.Performed (.operation (.allocate scope type name owner))
      (m.perform (.operation (.allocate scope type name owner))) := by
  have hrun : m.perform (.operation (.allocate scope type name owner)) =
      (m.allocate scope type name owner).toOption.getD m := m.run_atomic _
  have hop : (Operation.allocate scope type name owner).run m.store =
      m.store.allocate scope type name owner := rfl
  refine m.performed_operation ?_ ?_ <;> rw [hrun, allocate_eq]
  · rw [hop]
    cases m.store.allocate scope type name owner <;> rfl
  · cases m.store.allocate scope type name owner with
    | error f => rfl
    | ok s => exact Script.Recorder.messages_add_of_ne _ (by decide) _

theorem performed_write (name owner : String) (value : Value) (stamp : Stamp) :
    m.Performed (.operation (.write name owner value stamp))
      (m.perform (.operation (.write name owner value stamp))) := by
  have hrun : m.perform (.operation (.write name owner value stamp)) =
      (({ m with clock := stamp.moment } : Memory).write name owner value stamp.line).toOption.getD
        { m with clock := stamp.moment } := run_atomic _ _
  have hop : (Operation.write name owner value stamp).run m.store =
      m.store.write name owner value stamp := rfl
  have hstamp : ({ m with clock := stamp.moment } : Memory).stamp stamp.line = stamp := rfl
  refine m.performed_operation ?_ ?_ <;> rw [hrun, write_eq, hstamp]
  · rw [hop]
    cases m.store.write name owner value stamp <;> rfl
  · cases m.store.write name owner value stamp with
    | error f => rfl
    | ok s => exact Script.Recorder.messages_add_of_ne _ (by decide) _

/-- All other operations are silent. -/
theorem performed_silent (op : Operation) :
    m.Performed (.operation op) ((MemoryM.onStore op.perform).run m).2 := by
  have hrun : ((MemoryM.onStore op.perform).run m).2 = { m with store := (op.perform.run m.store).2 } :=
    rfl
  exact hrun ▸ ⟨rfl, (List.append_nil _).symm⟩

theorem performed_read (now : Sources) (name owner : String) :
    m.Performed (.read now name owner) (m.perform (.read now name owner)) := by
  let n : Memory := { m with clock := now.clock, draw := now.draw }
  have hrun : m.perform (.read now name owner) =
      (Prod.snd <$> n.read name owner).toOption.getD n := n.run_atomic _
  have hsources : n.sources = now := rfl
  unfold Performed
  rw [hrun, read_eq, hsources, Call.next_reading]
  cases hread : m.store.read now name owner with
  | error f =>
    have hnone : (Call.read now name owner).warning? m.store = none := by
      cases hslot : m.store.slot? name owner <;> simp [Call.warning?, hslot, hread, Except.toOption]
    rw [hnone]
    exact ⟨rfl, (List.append_nil _).symm⟩
  | ok found =>
    obtain ⟨r, s⟩ := found
    have hsaid : ((Call.read now name owner).warning? m.store).toList.map Prod.snd =
        r.warning.toList := by
      rw [← warning?_of_read hread]
      cases (Call.read now name owner).warning? m.store <;> rfl
    rw [hsaid]
    simp only [bind, Except.bind]
    cases r.warning with
    | none => exact ⟨rfl, (List.append_nil _).symm⟩
    | some warning => exact ⟨rfl, Script.Recorder.messages_add _ rfl _⟩

theorem performed (call : Call) : m.Performed call (m.perform call) := by
  cases call with
  | read now name owner => exact m.performed_read now name owner
  | cells new => exact ⟨rfl, (List.append_nil _).symm⟩
  | operation op =>
    cases op
    case allocate scope type name owner => exact m.performed_allocate scope type name owner
    case write name owner value stamp => exact m.performed_write name owner value stamp
    all_goals exact m.performed_silent _

/-- The log of a memory has the warnings that the calls on its store deserve, in order. -/
theorem warn_after (calls : List Call) : (m.after calls).store = m.store.after calls ∧
    (m.after calls).log.messages .warn =
      m.log.messages .warn ++ (m.store.warnings calls).map Prod.snd := by
  induction calls generalizing m with
  | nil => exact ⟨rfl, (List.append_nil _).symm⟩
  | cons call calls ih =>
    obtain ⟨hstore, hlog⟩ := m.performed call
    obtain ⟨hafter, hwarn⟩ := ih (m.perform call)
    rw [hstore] at hafter hwarn
    refine ⟨hafter, hwarn.trans ?_⟩
    rw [hlog, warnings, List.map_append, List.append_assoc]

end Memory

namespace Store

/-- Whatever has been called on a store since it was empty: a read of a visible variable succeeds with
the value that the latest write gave it, or with the zero of its type if there was none; about each
variable there is one warning if it was read before a write to it had succeeded, and else none; and the
log has these warnings in order. -/
theorem warnings_of_calls (modulus : UInt32) (calls : List Call) :
    let s := (empty modulus).after calls
    (∀ now name owner, s.isVisible name owner = true → Reserved.ofName? name = none →
      ∃ slot v r t, s.slot? name owner = some slot ∧ s.at? slot = some v ∧
        s.read now name owner = .ok (r, t) ∧
        r.value = ((empty modulus).latest? slot calls).getD v.type.zero) ∧
    (∀ slot, ((empty modulus).latest? slot calls).isSome = true ↔ (empty modulus).Wrote slot calls) ∧
    (∀ slot,
      ((empty modulus).ReadUnwritten slot calls → (empty modulus).warningCount slot calls = 1) ∧
      (¬(empty modulus).ReadUnwritten slot calls → (empty modulus).warningCount slot calls = 0)) ∧
    ∀ m : Memory, m.store = empty modulus → (m.after calls).store = s ∧
      (m.after calls).log.messages .warn =
        m.log.messages .warn ++ ((empty modulus).warnings calls).map Prod.snd := by
  intro s
  have hempty (slot : Slot) : (empty modulus).at? slot = none := by cases slot <;> rfl
  refine ⟨fun now name owner hvisible hname => ?_, fun slot => isSome_latest? fun v hv => ?_, fun slot => ?_,
    fun m hm => ?_⟩
  · have hfind : (s.find? name owner).isSome = true := by
      simpa [isVisible, hname] using hvisible
    cases hslot : s.slot? name owner with
    | none =>
      rw [find?_of_no_slot hslot hname] at hfind
      cases hfind
    | some slot =>
      obtain ⟨v, hv⟩ := Option.isSome_iff_exists.mp (find?_of_slot hslot).2
      obtain ⟨r, t, hread, hvalue, -⟩ := read_of_slot hslot hv now
      exact ⟨slot, v, r, t, rfl, hv, hread, hvalue.trans (value_of_latest (hempty slot) hv)⟩
  · cases (hempty slot).symm.trans hv
  · exact count_warnings (fun v hv => by cases (hempty slot).symm.trans hv) calls
  · have h := m.warn_after calls
    rw [hm] at h
    exact h

/-- A clock that stands and dice that show zero. -/
def quiet : Sources where
  clock := .epoch
  draw _ _ := 0

/-- Two locals of one name: the first is read twice, once before a write fails and once behind it, and
then written; the second one is written before it is read. -/
def readTwice : List Call :=
  [.operation (.allocate .owned .integers "N" "FIRST"),
    .operation (.allocate .owned .integers "N" "SECOND"),
    .operation (.truncate "N" "FIRST" 0 ⟨3, .epoch⟩),
    .read quiet "N" "FIRST",
    .operation (.append "N" "FIRST" (.string "seven") ⟨5, .epoch⟩),
    .read quiet "N" "FIRST",
    .operation (.append "N" "SECOND" (.string "7") ⟨7, .epoch⟩),
    .read quiet "N" "SECOND",
    .operation (.extend "N" "FIRST" (.strings ["1", "2"]) ⟨9, .epoch⟩)]

/-- The first local reads as the two numbers that it was extended by. -/
theorem warnings_of_calls_twice :
    (empty 100).warningCount (.owned "FIRST" "N") readTwice = 1 ∧
    (empty 100).warningCount (.owned "SECOND" "N") readTwice = 0 ∧
    (∃ r t, ((empty 100).after readTwice).read quiet "N" "FIRST" = .ok (r, t) ∧
      r.value = .integers [1, 2]) ∧
    ((⟨empty 100, {}, .epoch, quiet.draw⟩ : Memory).after readTwice).log.messages .warn =
      ["$N read before it was written; using "] := by
  obtain ⟨hreads, -, hcount, hlog⟩ := warnings_of_calls 100 readTwice
  refine ⟨(hcount _).1 ?_, (hcount _).2 ?_, ?_,
    (hlog ⟨empty 100, {}, .epoch, quiet.draw⟩ rfl).2.trans ?_⟩
  · refine ⟨readTwice.take 3, .read quiet "N" "FIRST", readTwice.drop 4, rfl,
      ⟨quiet, "N", "FIRST", rfl, rfl⟩, ?_⟩
    exact fun h => absurd (((warnings_of_calls 100 (readTwice.take 3)).2.1 _).mpr h) (by decide)
  · exact fun hread => absurd ((hcount _).1 hread) (by decide)
  · obtain ⟨slot, v, r, t, hslot, -, hread, hvalue⟩ := hreads quiet "N" "FIRST" rfl rfl
    have hslot' : ((empty 100).after readTwice).slot? "N" "FIRST" = some (.owned "FIRST" "N") := rfl
    obtain rfl := Option.some.inj (hslot.symm.trans hslot')
    exact ⟨r, t, hread, hvalue⟩
  · rfl

end Store

end CommandScript
