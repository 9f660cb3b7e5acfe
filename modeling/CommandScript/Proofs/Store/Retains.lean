import CommandScript.Proofs.Store.Fits
import CommandScript.Proofs.Store.Operations

/-!
# What reading leaves as it is

A read may mark a variable as warned about, and drawing a random number moves the generator on.
`Store.Retains` says that nothing else has changed: every variable of every owner is there with its
value, type, last write and mask, and so is what the reserved variables hold.
-/

namespace CommandScript

/-- The variable as if no read of it had been warned about. -/
def Variable.unwarned (v : Variable) : Variable :=
  { v with warned := false }

namespace Store

/-- Of the first store everything is left but the marks of warnings and the place of the generator of
random numbers. -/
structure Retains (s t : Store) : Prop where
  globals : ∀ name,
    (t.globals.get? name).map Variable.unwarned = (s.globals.get? name).map Variable.unwarned
  locals : ∀ key,
    (t.locals.get? key).map Variable.unwarned = (s.locals.get? key).map Variable.unwarned
  response : t.cells.response = s.cells.response
  returned : t.cells.returned = s.cells.returned
  status : t.cells.status = s.cells.status
  scanned : t.cells.scanned = s.cells.scanned
  modulus : t.cells.modulus = s.cells.modulus

variable {s t u : Store}

theorem Retains.refl (s : Store) : s.Retains s :=
  ⟨fun _ => rfl, fun _ => rfl, rfl, rfl, rfl, rfl, rfl⟩

theorem Retains.trans (h : s.Retains t) (h' : t.Retains u) : s.Retains u :=
  ⟨fun name => (h'.globals name).trans (h.globals name),
    fun key => (h'.locals key).trans (h.locals key), h'.response.trans h.response,
    h'.returned.trans h.returned, h'.status.trans h.status, h'.scanned.trans h.scanned,
    h'.modulus.trans h.modulus⟩

/-- A variable may be replaced by one that is the same but for its mark. -/
theorem retains_replace {name owner : String} {v w : Variable} (h : t.find? name owner = some v)
    (hw : w.unwarned = v.unwarned) : t.Retains (t.replace name owner w) := by
  unfold replace
  cases hlocal : t.locals.get? (owner, name) with
  | some v' =>
    obtain rfl : v' = v := by simpa [find?, hlocal] using h
    simp only [Assoc.contains, hlocal, Option.isSome_some, ↓reduceIte]
    refine ⟨fun _ => rfl, fun key => ?_, rfl, rfl, rfl, rfl, rfl⟩
    rw [Assoc.get?_put]
    split
    · rename_i hkey
      rw [← hkey, hlocal, Option.map_some, Option.map_some, hw]
    · rfl
  | none =>
    have hglobal : t.globals.get? name = some v := by simpa [find?, hlocal] using h
    simp only [Assoc.contains, hlocal, Option.isSome_none, Bool.false_eq_true, ↓reduceIte]
    refine ⟨fun name' => ?_, fun _ => rfl, rfl, rfl, rfl, rfl, rfl⟩
    rw [Assoc.get?_put]
    split
    · rename_i hname
      rw [← hname, hglobal, Option.map_some, Option.map_some, hw]
    · rfl

theorem get_ok {name owner : String} {v : Variable} (h : t.get name owner = .ok v) :
    t.find? name owner = some v := by
  have := t.yields_get name owner
  rwa [h] at this

/-- Of the cells a read changes at most the generator. -/
theorem exists_read_cells (cells : Cells) (now : Sources) (r : Reserved) :
    ∃ generator, (cells.read now r).2 = { cells with generator } := by
  cases r
  case random => exact ⟨cells.generator.next cells.modulus, rfl⟩
  all_goals exact ⟨cells.generator, rfl⟩

theorem retains_read {now : Sources} {name owner : String} {r : Reading}
    (h : t.read now name owner = .ok (r, u)) : t.Retains u := by
  rw [read_eq] at h
  split at h
  · rename_i reserved _
    simp only [Except.ok.injEq, Prod.mk.injEq] at h
    obtain ⟨-, rfl⟩ := h
    obtain ⟨g, hg⟩ := exists_read_cells t.cells now reserved
    rw [hg]
    exact ⟨fun _ => rfl, fun _ => rfl, rfl, rfl, rfl, rfl, rfl⟩
  · simp only [Checked.bind_ok] at h
    obtain ⟨v, hv, h⟩ := h
    split at h
    · cases h
      exact retains_replace (get_ok hv) rfl
    · cases h
      exact .refl t

/-! ### Operations -/

/-- An operation on a variable that is meant by its name from inside a subroutine, with all that it
is given. -/
inductive Operation where
  | allocate (scope : Scope) (type : ValueType) (name owner : String)
  | write (name owner : String) (value : Value) (stamp : Stamp)
  | clear (name owner : String) (stamp : Stamp)
  | append (name owner : String) (item : Value) (stamp : Stamp)
  | extend (name owner : String) (more : Value) (stamp : Stamp)
  | insert (name owner : String) (index : Nat) (item : Value) (stamp : Stamp)
  | modify (name owner : String) (index : Nat) (item : Value) (stamp : Stamp)
  | remove (name owner : String) (first last : Nat) (stamp : Stamp)
  | truncate (name owner : String) (count : Nat) (stamp : Stamp)
  | pop (name owner : String) (count : Nat) (stamp : Stamp)
  | filter (name owner : String) (f : Filter)
  | applyFilter (name owner : String) (stamp : Stamp)
  | resetFilter (name owner : String)

namespace Operation

/-- Carries the operation out, whatever number it may give. -/
def perform : Operation → StoreM Unit
  | allocate scope type name owner => .allocate scope type name owner
  | write name owner value stamp => .write name owner value stamp
  | clear name owner stamp => .clear name owner stamp
  | append name owner item stamp => .append name owner item stamp
  | extend name owner more stamp => .extend name owner more stamp
  | insert name owner index item stamp => .insert name owner index item stamp
  | modify name owner index item stamp => .modify name owner index item stamp
  | remove name owner first last stamp => .remove name owner first last stamp
  | truncate name owner count stamp => .truncate name owner count stamp
  | pop name owner count stamp => .pop name owner count stamp
  | filter name owner f => do let _ ← StoreM.filter name owner f
  | applyFilter name owner stamp => do let _ ← StoreM.applyFilter name owner stamp
  | resetFilter name owner => .resetFilter name owner

instance atomic_perform (op : Operation) : Atomic op.perform := by
  cases op <;> unfold perform <;> infer_instance

/-- The store after the operation, where it succeeds. -/
def run (s : Store) (op : Operation) : Checked Store :=
  s.leaves op.perform

/-- The store that an operation hands back. -/
theorem run_perform (op : Operation) (s : Store) :
    (op.perform.run s).2 = match op.run s with
      | .ok t => t
      | .error _ => s := by
  rw [Atomic.run_eq, run, leaves]
  rcases outcome op.perform s with f | ⟨u, t⟩ <;> rfl

theorem run_filter (s : Store) (name owner : String) (f : Filter) :
    (filter name owner f).run s = Prod.snd <$> s.filter name owner f := by
  unfold run perform leaves Store.filter
  rw [outcome_bind]
  cases outcome (StoreM.filter name owner f) s <;> rfl

theorem run_applyFilter (s : Store) (name owner : String) (stamp : Stamp) :
    (applyFilter name owner stamp).run s = Prod.snd <$> s.applyFilter name owner stamp := by
  unfold run perform leaves Store.applyFilter
  rw [outcome_bind]
  cases outcome (StoreM.applyFilter name owner stamp) s <;> rfl

end Operation

end Store

end CommandScript
