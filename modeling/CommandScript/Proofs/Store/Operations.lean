import CommandScript.Memory
import CommandScript.Proofs.Ensures
import CommandScript.Proofs.Relates

/-!
# Operations on a store

An operation looks the variable of a name up, works on it and puts it back, whatever came of the work.
Where it fails the variable is still as it was found, so the store is as it was, too: all operations of
a store are `Atomic`. Whether a name can be allocated depends on what the store has under it
(`Memory.meets_allocate`).
-/

namespace CommandScript

variable {α : Type}

/-! ### Faults leave a store as it was -/

namespace VariableM

instance safe_overwrite (value : Value) (stamp : Stamp) : Safe (overwrite value stamp) := by
  unfold overwrite put dropMask touch
  infer_instance

end VariableM

namespace StoreM

variable (name owner : String) (stamp : Stamp)

/-- A variable that work on it left as it was goes back to where it was found. -/
theorem run_onVariable (action : VariableM α) (s : Store) :
    (onVariable name owner action).run s = match s.writable name owner with
      | .error f => (.error f, s)
      | .ok v => ((action.run v).1, s.replace name owner (action.run v).2) :=
  rfl

instance atomic_onVariable (action : VariableM α) [Atomic action] :
    Atomic (onVariable name owner action) where
  same {s t f} h := by
    rw [run_onVariable] at h
    rcases hv : s.writable name owner with g | v <;> rw [hv] at h
    · cases h
      rfl
    · dsimp only at h
      rcases ha : action.run v with ⟨g | a, w⟩ <;> rw [ha] at h
      · cases h
        rw [Atomic.same ha]
        exact Store.replace_self (Store.find?_of_writable hv)
      · cases h

instance still_onVariable (action : VariableM α) [Still action] :
    Still (onVariable name owner action) where
  same s := by
    rw [run_onVariable]
    rcases hv : s.writable name owner with g | v
    · rfl
    · dsimp only
      rw [Still.same v]
      exact Store.replace_self (Store.find?_of_writable hv)

instance atomic_onArray (action : VariableM α) [Atomic action] :
    Atomic (onArray name owner action) := by
  unfold onArray
  infer_instance

instance still_onArray (action : VariableM α) [Still action] : Still (onArray name owner action) := by
  unfold onArray
  infer_instance

instance atomic_allocate (scope : Scope) (type : ValueType) :
    Atomic (allocate scope type name owner) := by
  unfold allocate
  cases scope
  all_goals
    dsimp only
    infer_instance

instance atomic_read (sources : Sources) : Atomic (read sources name owner) := by
  unfold read
  split <;> infer_instance

instance atomic_write (value : Value) : Atomic (write name owner value stamp) := by
  unfold write
  infer_instance

instance atomic_clear : Atomic (clear name owner stamp) := by
  unfold clear
  infer_instance

instance atomic_append (item : Value) : Atomic (append name owner item stamp) := by
  unfold append
  infer_instance

instance atomic_extend (more : Value) : Atomic (extend name owner more stamp) := by
  unfold extend
  infer_instance

instance atomic_insert (index : Nat) (item : Value) :
    Atomic (insert name owner index item stamp) := by
  unfold insert
  infer_instance

instance still_checkIndex (index : Nat) (v : Variable) : Still (checkIndex name index v) := by
  unfold checkIndex
  infer_instance

instance atomic_modify (index : Nat) (item : Value) :
    Atomic (StoreM.modify name owner index item stamp) := by
  unfold StoreM.modify VariableM.put VariableM.touch
  infer_instance

instance atomic_remove (first last : Nat) : Atomic (remove name owner first last stamp) := by
  unfold remove
  infer_instance

instance still_arraySize : Still (arraySize name owner) := by
  unfold arraySize
  infer_instance

instance atomic_truncate (count : Nat) : Atomic (truncate name owner count stamp) := by
  unfold truncate
  infer_instance

instance atomic_pop (count : Nat) : Atomic (pop name owner count stamp) := by
  unfold pop
  infer_instance

instance atomic_filter (f : Filter) : Atomic (filter name owner f) := by
  have narrow (v : Variable) : Atomic (match f.verdicts? v.value with
      | none => throw (.cause .typeMismatch s!"filter does not apply to {v.type} ${name}")
      | some verdicts => do
        let mask := narrowed v.mask verdicts
        set { v with mask := some mask }
        return mask.count true : VariableM Nat) := by
    split <;> infer_instance
  unfold filter
  infer_instance

instance atomic_applyFilter : Atomic (applyFilter name owner stamp) := by
  unfold applyFilter
  infer_instance

instance atomic_resetFilter : Atomic (resetFilter name owner) := by
  unfold resetFilter VariableM.dropMask
  infer_instance

instance atomic_withModulus (n : Int64) : Atomic (withModulus n) := by
  unfold withModulus
  infer_instance

end StoreM

namespace MemoryM

variable (name owner : String)

instance atomic_onStore (action : StoreM α) [Atomic action] : Atomic (onStore action) where
  same {m t f} h := by
    rcases ha : action.run m.store with ⟨g | a, s⟩
    · cases Atomic.same ha
      simp only [onStore, ExceptT.run] at h ha
      rw [ha] at h
      cases h
      rfl
    · simp only [onStore, ExceptT.run] at h ha
      rw [ha] at h
      cases h

instance safe_report (c : Category) (message : String) : Safe (report c message) := by
  unfold report
  infer_instance

instance atomic_allocate (scope : Scope) (type : ValueType) :
    Atomic (allocate scope type name owner) := by
  unfold allocate
  infer_instance

instance atomic_write (value : Value) (line : Nat) : Atomic (write name owner value line) := by
  unfold write
  infer_instance

instance atomic_read : Atomic (read name owner) := by
  have warn (reading : Store.Reading) : Safe (do
      if let some warning := reading.warning then
        report .warn warning
      return reading.value : MemoryM Value) := by
    split <;> infer_instance
  unfold read
  infer_instance

end MemoryM

/-! ### Allocating in two stores -/

/-- The store with a fresh variable. -/
def Store.allocated (s : Store) (scope : Scope) (type : ValueType) (name owner : String) : Store :=
  match scope with
  | .global => { s with globals := s.globals.put name (.fresh type .global owner) }
  | .owned => { s with locals := s.locals.put (owner, name) (.fresh type .owned owner) }

variable {m n : Memory} {scope : Scope} {type : ValueType} {name owner : String}

/-- Where two stores have the same under a name, both allocate it or neither does. -/
theorem Memory.meets_allocate
    (hglobal : n.store.globals.get? name = m.store.globals.get? name)
    (hlocal : scope = .owned → n.store.locals.get? (owner, name) = m.store.locals.get? (owner, name)) :
    Checked.Meets (fun m' n' => m'.store = m.store.allocated scope type name owner ∧
        n'.store = n.store.allocated scope type name owner)
      (m.allocate scope type name owner) (n.allocate scope type name owner) := by
  have hstore : Checked.Meets (fun s t => s = m.store.allocated scope type name owner ∧
        t = n.store.allocated scope type name owner)
      (m.store.allocate scope type name owner) (n.store.allocate scope type name owner) := by
    rw [Store.allocate_eq, Store.allocate_eq]
    unfold Assoc.contains
    rw [hglobal]
    refine Checked.meets_ite (fun _ => Checked.meets_fail_bind) fun _ => ?_
    refine Checked.meets_ite (fun _ => Checked.meets_fail_bind) fun _ => ?_
    refine Checked.meets_ite (fun _ => Checked.meets_fail_bind) fun _ => ?_
    cases scope with
    | global => exact .ok ⟨rfl, rfl⟩
    | owned =>
      dsimp only
      rw [hlocal rfl]
      exact Checked.meets_ite (fun _ => Checked.meets_fail_bind) fun _ => .ok ⟨rfl, rfl⟩
  rw [Memory.allocate_eq, Memory.allocate_eq]
  exact hstore.bind fun s t hst => .ok hst

end CommandScript
