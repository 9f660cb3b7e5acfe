import CommandScript.Proofs.Store.Calls

/-!
# Owners do not reach one another's locals

A call changes no variable but the one that its name denotes, and an operation fails where its name
denotes none. So the calls on the locals of one owner may be left out of any sequence of calls
(`Store.without`) and whoever reads from inside another owner finds the same. `Store.Beside` relates
the two runs.
-/

namespace CommandScript

namespace Store

/-- The slot is that of a local of the owner. -/
def Slot.isOf (owner : String) : Slot → Bool
  | global _ => false
  | owned owner' _ => owner' = owner

/-- The call is on a local of the owner: its name denotes one, or it is to allocate one. -/
def Call.isOnLocalOf (s : Store) (owner : String) (call : Call) : Bool :=
  (call.slot? s).any (·.isOf owner)

/-- The calls that are on no local of the owner when their turn comes. -/
def without (s : Store) (owner : String) : List Call → List Call
  | [] => []
  | call :: calls =>
    if call.isOnLocalOf s owner then (call.next s).without owner calls
    else call :: (call.next s).without owner calls

/-- The stores are the same but for locals of the owner, and the second one has none that the first
one has not. -/
structure Beside (owner : String) (s t : Store) : Prop where
  same : ∀ slot, slot.isOf owner = false → s.at? slot = t.at? slot
  missing : ∀ name, s.at? (.owned owner name) = none → t.at? (.owned owner name) = none
  cells : s.cells = t.cells

variable {s t : Store} {name owner other : String} {v : Variable} {slot : Slot} {call : Call}
  {op : Operation}

/-! ### What a call leaves alone -/

/-- A call that is on a variable leaves alone what the reserved variables hold. -/
theorem cellsAfter_of_slot (h : call.slot? s = some slot) : call.cellsAfter s = s.cells := by
  cases call with
  | operation op => rfl
  | read now name owner => simp only [Call.cellsAfter, unreserved_of_slot h]
  | cells new => cases h

theorem no_slot_iff : s.slot? name owner = none ↔
    (Reserved.ofName? name).isSome = true ∨ s.find? name owner = none := by
  rw [find?_eq]
  unfold slot?
  cases (Reserved.ofName? name).isSome <;> cases s.at? (.owned owner name) <;>
    cases s.at? (.global name) <;> simp

/-! ### Two runs side by side -/

namespace Beside

theorem refl (owner : String) (s : Store) : Beside owner s s :=
  ⟨fun _ _ => rfl, fun _ => id, rfl⟩

/-- A name that denotes no local of the owner denotes the same in both stores. -/
theorem slot?_eq (h : Beside owner s t) (hslot : (s.slot? name other).any (·.isOf owner) = false) :
    t.slot? name other = s.slot? name other := by
  cases hname : (Reserved.ofName? name).isSome with
  | true => simp [slot?, hname]
  | false =>
    refine slot?_congr ?_ (h.same _ rfl).symm
    by_cases howner : other = owner
    · subst howner
      cases hlocal : s.at? (.owned other name) with
      | none => exact h.missing name hlocal
      | some v => simp [slot?, hname, hlocal, Slot.isOf] at hslot
    · exact (h.same _ (by simp [Slot.isOf, howner])).symm

theorem call_slot?_eq (h : Beside owner s t) (hcall : call.isOnLocalOf s owner = false) :
    call.slot? t = call.slot? s := by
  cases call with
  | operation op =>
    cases halloc : op.isAllocation with
    | true =>
      cases op
      case allocate => rfl
      all_goals cases halloc
    | false =>
      rw [Call.isOnLocalOf, Call.slot?_operation halloc] at hcall
      rw [Call.slot?_operation halloc, Call.slot?_operation halloc, h.slot?_eq hcall]
  | read now name owner => exact h.slot?_eq hcall
  | cells new => rfl

theorem puts?_eq (h : Beside owner s t) (hslot : call.slot? s = some slot)
    (hother : slot.isOf owner = false) : call.puts? t slot = call.puts? s slot := by
  have hsame := h.same slot hother
  cases call with
  | operation op =>
    cases halloc : op.isAllocation with
    | true =>
      cases op
      case allocate scope type name owner =>
        obtain rfl : Slot.of scope name owner = slot := Option.some.inj hslot
        have hadmits : t.admits scope name owner = s.admits scope name owner := by
          simp only [admits, hsame, h.same (.global name) rfl]
        simp only [Call.puts?, hadmits]
      all_goals cases halloc
    | false => rw [Call.puts?_operation halloc, Call.puts?_operation halloc, hsame]
  | read now name owner => simp only [Call.puts?, hsame]
  | cells new => rfl

/-- A call on no local of the owner does the same to both stores. -/
theorem next_next (h : Beside owner s t) (hcall : call.isOnLocalOf s owner = false) :
    Beside owner (call.next s) (call.next t) where
  same slot hslot := by
    rw [Call.at?_next, Call.at?_next, h.call_slot?_eq hcall, h.same slot hslot]
    split
    · rename_i hon
      rw [h.puts?_eq hon hslot]
    · rfl
  missing name hnone := by
    have hne : call.slot? s ≠ some (.owned owner name) := by
      intro hon
      simp [Call.isOnLocalOf, hon, Slot.isOf] at hcall
    rw [Call.at?_next_of_ne hne] at hnone
    rw [Call.at?_next_of_ne (by rwa [h.call_slot?_eq hcall])]
    exact h.missing name hnone
  cells := by
    rw [Call.cells_next, Call.cells_next]
    cases call <;> simp only [Call.cellsAfter, h.cells]

/-- A call on a local of the owner does nothing to anything else. -/
theorem next_left (h : Beside owner s t) (hcall : call.isOnLocalOf s owner = true) :
    Beside owner (call.next s) t := by
  obtain ⟨slot, hon, hslot⟩ : ∃ slot, call.slot? s = some slot ∧ slot.isOf owner = true := by
    simpa [Call.isOnLocalOf, Option.any_eq_true] using hcall
  refine ⟨fun slot' hslot' => ?_, fun name hnone => ?_, ?_⟩
  · have hne : slot ≠ slot' := by
      rintro rfl
      simp [hslot] at hslot'
    rw [Call.at?_next_of_ne (by simpa [hon] using hne), h.same slot' hslot']
  · rw [Call.at?_next] at hnone
    split at hnone
    · exact h.missing name (Option.or_eq_none_iff.mp hnone).2
    · exact h.missing name hnone
  · rw [Call.cells_next, cellsAfter_of_slot hon, h.cells]

end Beside

/-- Leaving out the calls on the locals of an owner makes no difference beside them. -/
theorem beside_without (h : Beside owner s t) (calls : List Call) :
    Beside owner (s.after calls) (t.after (s.without owner calls)) := by
  induction calls generalizing s t with
  | nil => exact h
  | cons call calls ih =>
    unfold without
    split
    · rename_i hcall
      exact ih (h.next_left hcall)
    · rename_i hcall
      exact ih (h.next_next (Bool.not_eq_true _ ▸ hcall))

namespace Beside

variable (h : Beside owner s t) (hother : other ≠ owner)

include h hother

theorem find?_eq (name : String) : s.find? name other = t.find? name other := by
  rw [Store.find?_eq, Store.find?_eq, h.same (.global name) rfl,
    h.same (.owned other name) (by simp [Slot.isOf, hother])]

theorem get_eq (name : String) : s.get name other = t.get name other := by
  unfold get
  rw [h.find?_eq hother]

theorem read_eq (now : Sources) (name : String) :
    Prod.fst <$> s.read now name other = Prod.fst <$> t.read now name other := by
  rw [Store.read_eq, Store.read_eq, h.get_eq hother, h.cells]
  cases Reserved.ofName? name with
  | some r => rfl
  | none =>
    cases t.get name other with
    | error f => rfl
    | ok v =>
      simp only [bind, Except.bind]
      cases v.written.isNone && !v.warned <;> rfl

end Beside

/-- In this store no call reaches a variable that it is not called on. -/
structure Isolated (s : Store) : Prop where
  /-- An operation changes the variable that its name denotes, and nothing else. -/
  operation : ∀ {op : Operation} {t : Store}, op.isAllocation = false → op.run s = .ok t →
    t.cells = s.cells ∧ ∀ slot, s.slot? op.name op.owner ≠ some slot → t.at? slot = s.at? slot
  /-- An allocation changes nothing that is there. -/
  allocation : ∀ {op : Operation} {t : Store}, op.isAllocation = true → op.run s = .ok t →
    t.cells = s.cells ∧ ∀ slot v, s.at? slot = some v → t.at? slot = some v
  /-- A read changes the variable that its name denotes, or what the reserved variable is read from,
  and nothing else. -/
  read : ∀ {now : Sources} {name owner : String} {r : Reading} {t : Store},
    s.read now name owner = .ok (r, t) → (Reserved.ofName? name = none → t.cells = s.cells) ∧
      ∀ slot, s.slot? name owner ≠ some slot → t.at? slot = s.at? slot
  /-- Only an allocation may be called on a name that is reserved or denotes nothing. -/
  fails : ∀ {op : Operation}, op.isAllocation = false →
    (Reserved.ofName? op.name).isSome = true ∨ s.find? op.name op.owner = none →
    ∃ f, op.run s = .error f
  /-- Whatever is called, one owner finds what it would find without the calls on the locals of
  another one. -/
  apart : ∀ {owner other : String}, owner ≠ other → ∀ (calls : List Call) (name : String),
    (s.after calls).get name owner = (s.after (s.without other calls)).get name owner ∧
    (s.after calls).typeOf name owner = (s.after (s.without other calls)).typeOf name owner ∧
    (s.after calls).size name owner = (s.after (s.without other calls)).size name owner ∧
    ∀ now, Prod.fst <$> (s.after calls).read now name owner =
      Prod.fst <$> (s.after (s.without other calls)).read now name owner

theorem isolated (s : Store) : s.Isolated where
  operation {op t} halloc hrun := by
    have hnext : (Call.operation op).next s = t := by rw [Call.next_perform, hrun]
    subst hnext
    refine ⟨Call.cells_next .., fun slot hslot => Call.at?_next_of_ne ?_⟩
    rwa [Call.slot?_operation halloc]
  allocation {op t} halloc hrun := by
    have hnext : (Call.operation op).next s = t := by rw [Call.next_perform, hrun]
    subst hnext
    exact ⟨Call.cells_next .., fun slot v hv => Call.at?_next_allocation halloc hv⟩
  read {now name owner r t} hread := by
    have hnext : (Call.read now name owner).next s = t := by rw [Call.next_reading, hread]
    subst hnext
    refine ⟨fun hname => ?_, fun slot hslot => Call.at?_next_of_ne hslot⟩
    simp only [Call.cells_next, Call.cellsAfter, hname]
  fails {op} halloc hname := by
    obtain ⟨f, hf, -⟩ := Call.run_of_no_slot halloc (no_slot_iff.mpr hname)
    exact ⟨f, hf⟩
  apart {owner other} hne calls name := by
    have h := beside_without (.refl other s) calls
    refine ⟨h.get_eq hne name, ?_, ?_, fun now => h.read_eq hne now name⟩
    · simp only [typeOf, h.get_eq hne]
    · simp only [size, h.get_eq hne]

/-- Two subroutines that each write a local of the same name. -/
def namesakes : List Call :=
  [.operation (.allocate .owned .integer "X" "FIRST"),
    .operation (.allocate .owned .integer "X" "SECOND"),
    .operation (.write "X" "FIRST" (.integer 1) ⟨3, .epoch⟩),
    .operation (.write "X" "SECOND" (.integer 2) ⟨7, .epoch⟩)]

/-- Without the calls on the local of the second subroutine two calls are left, and the first one
finds its own value all the same. -/
theorem isolated_namesakes :
    "FIRST" ≠ "SECOND" ∧ ((empty 100).without "SECOND" namesakes).length = 2 ∧
    Variable.value <$> ((empty 100).after namesakes).get "X" "SECOND" = .ok (.integer 2) ∧
    Variable.value <$> ((empty 100).after namesakes).get "X" "FIRST" = .ok (.integer 1) := by
  have hne : "FIRST" ≠ "SECOND" := by decide
  refine ⟨hne, rfl, rfl, ?_⟩
  rw [((isolated (empty 100)).apart hne namesakes "X").1]
  rfl

end Store

end CommandScript
