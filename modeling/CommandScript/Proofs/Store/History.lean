import CommandScript.Proofs.Store.Calls

/-!
# What calls make of a variable

Whatever is called on a store, its variables stay sound: each holds a value of its type, and a mask
only if it is an array, and then one of its length. `Variable.Turns` lists what a call may make of a
variable; a write leaves a stamp and nothing else does, so the stamp tells whether one has succeeded
(`Store.Wrote`).
-/

namespace CommandScript

namespace Variable

/-- The variable holds a value of its type, and a mask for its entries at most. -/
structure Sound (v : Variable) : Prop where
  value : v.value.type = v.type
  mask : ∀ mask, v.mask = some mask → v.type.isArray = true ∧ mask.length = v.size

/-- What a call may make of a variable; the flag says whether that is a write. -/
inductive Turns (v : Variable) : Bool → Variable → Prop
  | keeps : v.Turns false v
  | warns : v.Turns false { v with warned := true }
  | masks (mask : Option (List Bool)) (harray : v.type.isArray = true)
      (hlength : ∀ m ∈ mask, m.length = v.size) : v.Turns false { v with mask }
  | holds (value : Value) (stamp : Stamp) (htype : value.type = v.type) :
    v.Turns true (v.holding value stamp)
  | replaces (value : Value) (stamp : Stamp) (htype : value.type = v.type)
      (hsize : ({ v with value } : Variable).size = v.size) :
    v.Turns true { v with value, written := some stamp }

variable {v w : Variable} {isWrite : Bool} {name : String} {stamp : Stamp}

theorem sound_fresh (type : ValueType) (scope : Scope) (owner : String) :
    (fresh type scope owner).Sound :=
  ⟨Value.type_zero type, nofun⟩

namespace Turns

theorem sound (h : v.Turns isWrite w) (hv : v.Sound) : w.Sound := by
  cases h with
  | keeps => exact hv
  | warns => exact ⟨hv.value, hv.mask⟩
  | masks mask harray hlength => exact ⟨hv.value, fun m hm => ⟨harray, hlength m hm⟩⟩
  | holds value stamp htype => exact ⟨htype, nofun⟩
  | replaces value stamp htype hsize =>
    exact ⟨htype, fun m hm => ⟨(hv.mask m hm).1, (hv.mask m hm).2.trans hsize.symm⟩⟩

theorem allocation (h : v.Turns isWrite w) :
    w.type = v.type ∧ w.scope = v.scope ∧ w.owner = v.owner := by
  cases h <;> exact ⟨rfl, rfl, rfl⟩

theorem written (h : v.Turns isWrite w) : w.written.isSome = (v.written.isSome || isWrite) := by
  cases h <;> simp [holding]

end Turns

/-! ### Operations -/

theorem asArray_ok (h : v.asArray name = .ok w) : w = v ∧ v.type.isArray = true := by
  unfold asArray at h
  split at h
  · cases h
    exact ⟨rfl, ‹_›⟩
  · cases h

theorem turns_of_changed {change : Variable → Checked Value}
    (hchange : ∀ value, change v = .ok value → value.type = v.type)
    (h : v.changed name stamp change = .ok w) : v.Turns true w := by
  unfold changed at h
  simp only [Checked.bind_ok, Checked.pure_ok] at h
  obtain ⟨u, hu, value, hvalue, rfl⟩ := h
  obtain ⟨rfl, -⟩ := asArray_ok hu
  exact .holds value stamp (hchange value hvalue)

end Variable

theorem Value.type_changeWith {v w item : Value} {name : String}
    {change : {α : Type} → List α → α → List α} (h : v.changeWith name item change = .ok w) :
    w.type = v.type := by
  have := v.yields_changeWith name item change
  rwa [h] at this

theorem Value.type_extendItems {v w more : Value} {name : String}
    (h : v.extendItems name more = .ok w) : w.type = v.type := by
  have := v.yields_extendItems name more
  rwa [h] at this

theorem Value.type_removeItems {v w : Value} {name : String} {first last : Nat}
    (h : v.removeItems name first last = .ok w) : w.type = v.type := by
  have := v.yields_change name fun items => items.take first ++ items.drop (last + 1)
  unfold removeItems at h
  rwa [h] at this

/-- Replacing an entry leaves the number of entries as it is. -/
theorem Variable.size_replaceItem {v : Variable} {value item : Value} {name : String} {index : Nat}
    (h : v.value.replaceItem name index item = .ok value) :
    ({ v with value } : Variable).size = v.size := by
  unfold Value.replaceItem Value.changeWith at h
  unfold size
  split at h
  · rename_i items hitems
    cases h
    simp [hitems]
  · rename_i items hitems
    simp only [Checked.bind_ok, Checked.pure_ok] at h
    obtain ⟨n, -, rfl⟩ := h
    simp [hitems]
  · cases h

/-- A filter says something of every entry. -/
theorem Filter.length_verdicts? {f : Filter} {v : Variable} {verdicts : List Bool}
    (h : f.verdicts? v.value = some verdicts) : verdicts.length = v.size := by
  unfold Filter.verdicts? at h
  unfold Variable.size
  split at h
  · rename_i hitems
    cases h
    simp [hitems]
  · rename_i hitems
    cases h
    simp [hitems]
  · cases h

theorem length_narrowed (mask : Option (List Bool)) (verdicts : List Bool) :
    (narrowed mask verdicts).length = verdicts.length := by
  unfold narrowed
  split
  · split
    · simp [*]
    · rfl
  · rfl

namespace Variable

theorem turns_of_removed {v w : Variable} {name : String} {first last : Nat} {stamp : Stamp}
    (hv : v.Sound) (h : v.removed name first last stamp = .ok w) : v.Turns true w := by
  refine turns_of_changed (fun value hvalue => ?_) h
  dsimp only at hvalue
  split at hvalue
  · cases hvalue
  · rw [Checked.bind_ok] at hvalue
    obtain ⟨-, -, hvalue⟩ := hvalue
    exact (Value.type_removeItems hvalue).trans hv.value

theorem turns_of_shortened {v w : Variable} {name : String} {count : Nat}
    {complaint : Variable → String} {first last : Variable → Nat} {stamp : Stamp} (hv : v.Sound)
    (h : v.shortened name count complaint first last stamp = .ok w) : v.Turns (count != 0) w := by
  unfold shortened at h
  rw [Checked.bind_ok] at h
  obtain ⟨u, hu, h⟩ := h
  obtain ⟨rfl, -⟩ := asArray_ok hu
  by_cases hlt : u.size < count
  · simp only [hlt, ↓reduceIte] at h
    cases h
  simp only [hlt, ↓reduceIte] at h
  split at h
  · rename_i hzero
    cases h
    simp only [hzero, bne_self_eq_false]
    exact .keeps
  · rename_i hpos
    rw [bne_iff_ne.mpr hpos]
    exact turns_of_removed hv h

end Variable

namespace Store

/-- Success at the operation is a write to the variable, as it stands. -/
def Operation.writes (v : Variable) : Operation → Bool
  | write .. | clear .. | append .. | extend .. | insert .. | modify .. | remove .. => true
  | truncate _ _ count _ | pop _ _ count _ => count != 0
  | applyFilter .. => v.mask.isSome
  | allocate .. | filter .. | resetFilter .. => false

variable {s : Store} {v w : Variable} {op : Operation} {slot : Slot} {call : Call}

theorem Operation.turns (hv : v.Sound) (h : op.become v = .ok w) : v.Turns (op.writes v) w := by
  cases op with
  | allocate =>
    cases h
    exact .keeps
  | write name owner value stamp =>
    simp only [become] at h
    split at h
    · cases h
    · rename_i htype
      cases h
      exact .holds value stamp (Decidable.not_not.mp htype)
  | clear name owner stamp =>
    cases h
    exact .holds _ stamp (Value.type_zero _)
  | append name owner item stamp =>
    exact Variable.turns_of_changed (fun _ hv' => (Value.type_changeWith hv').trans hv.value) h
  | extend name owner more stamp =>
    exact Variable.turns_of_changed (fun _ hv' => (Value.type_extendItems hv').trans hv.value) h
  | insert name owner index item stamp =>
    refine Variable.turns_of_changed (fun value hvalue => ?_) h
    split at hvalue
    · cases hvalue
    · exact (Value.type_changeWith hvalue).trans hv.value
  | modify name owner index item stamp =>
    simp only [become, Checked.bind_ok, Checked.pure_ok] at h
    obtain ⟨u, hu, -, -, value, hvalue, rfl⟩ := h
    obtain ⟨rfl, -⟩ := Variable.asArray_ok hu
    exact .replaces value stamp ((Value.type_changeWith hvalue).trans hv.value)
      (Variable.size_replaceItem hvalue)
  | remove name owner first last stamp => exact Variable.turns_of_removed hv h
  | truncate name owner count stamp => exact Variable.turns_of_shortened hv h
  | pop name owner count stamp => exact Variable.turns_of_shortened hv h
  | filter name owner f =>
    simp only [become, Checked.bind_ok] at h
    obtain ⟨u, hu, h⟩ := h
    obtain ⟨rfl, harray⟩ := Variable.asArray_ok hu
    split at h
    · cases h
    · rename_i verdicts hverdicts
      cases h
      refine .masks _ harray fun m hm => ?_
      cases hm
      rw [length_narrowed, Filter.length_verdicts? hverdicts]
  | applyFilter name owner stamp =>
    simp only [become, Checked.bind_ok] at h
    obtain ⟨u, hu, h⟩ := h
    obtain ⟨rfl, harray⟩ := Variable.asArray_ok hu
    simp only [writes]
    split at h
    · rename_i hmask
      cases h
      rw [hmask]
      exact .keeps
    · rename_i hmask
      cases h
      rw [hmask]
      exact .holds _ stamp (u.type_filtered.trans hv.value)
  | resetFilter name owner =>
    simp only [become, Checked.bind_ok, Checked.pure_ok] at h
    obtain ⟨u, hu, rfl⟩ := h
    obtain ⟨rfl, harray⟩ := Variable.asArray_ok hu
    exact .masks none harray fun m hm => by cases hm

/-! ### Calls -/

/-- The call is a write to the variable in the slot, and it succeeds. -/
def Call.Writes (s : Store) (slot : Slot) (call : Call) : Prop :=
  ∃ op t v, call = .operation op ∧ op.run s = .ok t ∧ s.slot? op.name op.owner = some slot ∧
    s.at? slot = some v ∧ op.writes v = true

/-- One of the calls is a write to the variable in the slot, and it succeeds when its turn comes. -/
def Wrote (s : Store) (slot : Slot) (calls : List Call) : Prop :=
  ∃ before call rest, calls = before ++ call :: rest ∧ call.Writes (s.after before) slot

theorem not_wrote_nil : ¬s.Wrote slot [] := by
  rintro ⟨before, call, rest, h, -⟩
  simp at h

theorem wrote_cons {calls : List Call} :
    s.Wrote slot (call :: calls) ↔ call.Writes s slot ∨ (call.next s).Wrote slot calls := by
  constructor
  · rintro ⟨before, call', rest, h, hwrites⟩
    cases before with
    | nil =>
      cases h
      exact .inl hwrites
    | cons first before =>
      cases h
      exact .inr ⟨before, call', rest, rfl, hwrites⟩
  · rintro (hwrites | ⟨before, call', rest, rfl, hwrites⟩)
    · exact ⟨[], call, calls, rfl, hwrites⟩
    · exact ⟨call :: before, call', rest, rfl, hwrites⟩

/-- A call makes of a variable what it may make of one, and writes it just where it says so. -/
theorem exists_turns (hv : s.at? slot = some v) (hs : v.Sound) (call : Call) :
    ∃ isWrite w, (call.next s).at? slot = some w ∧ v.Turns isWrite w ∧
      (isWrite = true ↔ call.Writes s slot) := by
  cases call with
  | operation op =>
    cases halloc : op.isAllocation with
    | true =>
      refine ⟨false, v, Call.at?_next_allocation halloc hv, .keeps, iff_of_false nofun ?_⟩
      rintro ⟨op', t, u, ⟨⟩, -, -, -, hwrites⟩
      cases op
      case allocate => cases hwrites
      all_goals cases halloc
    | false =>
      by_cases hslot : s.slot? op.name op.owner = some slot
      · cases hbecome : op.become v with
        | error f =>
          have hrun : op.run s = .error f := by
            rw [Call.run_of_slot halloc hslot hv, hbecome]
            rfl
          refine ⟨false, v, ?_, .keeps, iff_of_false nofun ?_⟩
          · simpa [Call.next_perform, hrun] using hv
          · rintro ⟨op', t, u, ⟨⟩, hok, -⟩
            rw [hrun] at hok
            cases hok
        | ok w =>
          have hrun : op.run s = .ok (s.fill slot w) := by
            rw [Call.run_of_slot halloc hslot hv, hbecome]
            rfl
          refine ⟨op.writes v, w, ?_, op.turns hs hbecome, fun hwrites => ?_, ?_⟩
          · simp [Call.next_perform, hrun]
          · exact ⟨op, _, v, rfl, hrun, hslot, hv, hwrites⟩
          · rintro ⟨op', t, u, ⟨⟩, -, -, hu, hwrites⟩
            rw [hv] at hu
            cases hu
            exact hwrites
      · refine ⟨false, v, ?_, .keeps, iff_of_false nofun ?_⟩
        · rw [Call.at?_next_of_ne (by rwa [Call.slot?_operation halloc]), hv]
        · rintro ⟨op', t, u, ⟨⟩, -, hslot', -⟩
          exact hslot hslot'
  | read now name owner =>
    have hnot : ¬(Call.read now name owner).Writes s slot := by
      rintro ⟨op, t, u, hop, -⟩
      cases hop
    rw [Call.at?_next, hv]
    simp only [Call.puts?, hv, Option.bind_some]
    split
    · split
      · exact ⟨false, _, rfl, .warns, iff_of_false nofun hnot⟩
      · exact ⟨false, _, rfl, .keeps, iff_of_false nofun hnot⟩
    · exact ⟨false, _, rfl, .keeps, iff_of_false nofun hnot⟩
  | cells new =>
    refine ⟨false, v, hv, .keeps, iff_of_false nofun ?_⟩
    rintro ⟨op, t, u, hop, -⟩
    cases hop

/-- What appears in an empty slot has just been allocated. -/
theorem eq_fresh_of_next (hnone : s.at? slot = none) (hv : (call.next s).at? slot = some v) :
    ∃ type scope owner, v = .fresh type scope owner := by
  rw [Call.at?_next, hnone] at hv
  split at hv
  · cases call with
    | operation op =>
      cases halloc : op.isAllocation with
      | true =>
        cases op
        case allocate scope type name owner _ =>
          simp only [Call.puts?, Option.or_none] at hv
          split at hv
          · cases hv
            exact ⟨type, scope, owner, rfl⟩
          · cases hv
        all_goals cases halloc
      | false => simp [Call.puts?_operation halloc, hnone] at hv
    | read now name owner => simp [Call.puts?, hnone] at hv
    | cells new => simp [Call.puts?] at hv
  · cases hv

/-- Whatever is called, a variable that is there stays there as what it was allocated. -/
theorem exists_after (hv : s.at? slot = some v) (hs : v.Sound) (calls : List Call) :
    ∃ w, (s.after calls).at? slot = some w ∧ w.Sound ∧
      (w.type = v.type ∧ w.scope = v.scope ∧ w.owner = v.owner) ∧
      (w.written.isSome = true ↔ v.written.isSome = true ∨ s.Wrote slot calls) := by
  induction calls generalizing s v with
  | nil => exact ⟨v, hv, hs, ⟨rfl, rfl, rfl⟩, by simp [not_wrote_nil]⟩
  | cons call calls ih =>
    obtain ⟨isWrite, u, hu, hturns, hwrites⟩ := exists_turns hv hs call
    obtain ⟨w, hw, hsound, ⟨htype, hscope, howner⟩, hwrote⟩ := ih hu (hturns.sound hs)
    obtain ⟨htype', hscope', howner'⟩ := hturns.allocation
    refine ⟨w, hw, hsound, ⟨htype.trans htype', hscope.trans hscope', howner.trans howner'⟩, ?_⟩
    rw [hwrote, hturns.written, wrote_cons, ← hwrites, Bool.or_eq_true, or_assoc]

/-- A variable that was not there has the stamp of a write just if one has succeeded. -/
theorem sound_after (hnone : s.at? slot = none) {calls : List Call}
    (hv : (s.after calls).at? slot = some v) :
    v.Sound ∧ (v.written.isSome = true ↔ s.Wrote slot calls) := by
  induction calls generalizing s with
  | nil => cases hnone.symm.trans hv
  | cons call calls ih =>
    have hnot : ¬call.Writes s slot := by
      rintro ⟨op, t, u, -, -, -, hu, -⟩
      cases hnone.symm.trans hu
    rw [wrote_cons, or_iff_right hnot]
    cases hnext : (call.next s).at? slot with
    | none => exact ih hnext hv
    | some u =>
      obtain ⟨type, scope, owner, rfl⟩ := eq_fresh_of_next hnone hnext
      obtain ⟨w, hw, hsound, -, hwrote⟩ := exists_after hnext (Variable.sound_fresh ..) calls
      cases hw.symm.trans hv
      exact ⟨hsound, by simpa [Variable.fresh] using hwrote⟩

/-- Whatever has been called on a store since it was empty: a variable holds a value of its declared
type, a mask only if it is an array and one of its length, and the line of a writer just if a write
to it has succeeded; and whatever is called from there on, its type, scope and owner stay. -/
theorem sound_of_calls (modulus : UInt32) (calls : List Call) (slot : Slot) (v : Variable)
    (hv : ((empty modulus).after calls).at? slot = some v) :
    v.value.type = v.type ∧
      (∀ mask, v.mask = some mask → v.type.isArray = true ∧ mask.length = v.size) ∧
      (v.written ≠ none ↔ (empty modulus).Wrote slot calls) ∧
      ∀ more, ∃ w, ((empty modulus).after (calls ++ more)).at? slot = some w ∧
        w.type = v.type ∧ w.scope = v.scope ∧ w.owner = v.owner := by
  have hnone : (empty modulus).at? slot = none := by cases slot <;> rfl
  obtain ⟨hsound, hwrote⟩ := sound_after hnone hv
  refine ⟨hsound.value, hsound.mask, ?_, fun more => ?_⟩
  · rw [← hwrote, Option.isSome_iff_ne_none]
  · rw [after_append]
    obtain ⟨w, hw, -, hkept, -⟩ := exists_after hv hsound more
    exact ⟨w, hw, hkept⟩

/-- An array of two numbers, one of which a filter leaves out. -/
def halfFiltered : List Call :=
  [.operation (.allocate .global .integers "N" mainOwner),
    .operation (.append "N" mainOwner (.integer 5) ⟨2, .epoch⟩),
    .operation (.append "N" "PART" (.string "7") ⟨3, .epoch⟩),
    .operation (.append "N" "PART" (.string "seven") ⟨4, .epoch⟩),
    .operation (.filter "N" mainOwner (.number .gt 6))]

theorem sound_of_calls_filtered : ∃ v,
    ((empty 100).after halfFiltered).at? (.global "N") = some v ∧ v.mask = some [false, true] ∧
      v.size = 2 ∧ (empty 100).Wrote (.global "N") halfFiltered := by
  obtain ⟨v, hv, hmask, hwritten⟩ : ∃ v,
      ((empty 100).after halfFiltered).at? (.global "N") = some v ∧ v.mask = some [false, true] ∧
        v.written ≠ none := ⟨_, rfl, rfl, nofun⟩
  obtain ⟨-, hlength, hwrote, -⟩ := sound_of_calls 100 halfFiltered (.global "N") v hv
  exact ⟨v, hv, hmask, (hlength _ hmask).2.symm, hwrote.mp hwritten⟩

end Store

end CommandScript
