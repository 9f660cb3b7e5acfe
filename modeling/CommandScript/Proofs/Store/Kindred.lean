import CommandScript.Memory
import CommandScript.Proofs.Couples

/-!
# Kindred stores

Two stores are kindred if they hold the same variables, in whatever order, and a variable that was
written in one was written in the other at the same moment, though perhaps on another line
(`Store.Kindred`). No operation on a store looks at the order of the variables or at the lines of
writes, so it comes to the same on kindred stores and leaves them kindred.
-/

namespace CommandScript

/-- Writes at one moment, on lines of two scripts. -/
structure Stamp.Kindred (a b : Stamp) : Prop where
  left : 0 < a.line
  right : 0 < b.line
  moment : a.moment = b.moment

/-- The variable as if it was never written. -/
def Variable.unwritten (v : Variable) : Variable :=
  { v with written := none }

/-- The variables differ in the line of the last write at most. -/
structure Variable.Kindred (v w : Variable) : Prop where
  same : v.unwritten = w.unwritten
  written : Option.Rel Stamp.Kindred v.written w.written

namespace Variable.Kindred

variable {v w : Variable} {a b : Stamp}

theorem type_eq (h : v.Kindred w) : v.type = w.type :=
  (congrArg Variable.type h.same :)

theorem value_eq (h : v.Kindred w) : v.value = w.value :=
  (congrArg Variable.value h.same :)

theorem warned_eq (h : v.Kindred w) : v.warned = w.warned :=
  (congrArg Variable.warned h.same :)

theorem mask_eq (h : v.Kindred w) : v.mask = w.mask :=
  (congrArg Variable.mask h.same :)

theorem size_eq (h : v.Kindred w) : v.size = w.size :=
  (congrArg Variable.size h.same :)

theorem filtered_eq (h : v.Kindred w) : v.filtered = w.filtered :=
  (congrArg Variable.filtered h.same :)

theorem isNone_eq (h : v.Kindred w) : v.written.isNone = w.written.isNone := by
  have hwritten := h.written
  generalize v.written = x at *
  generalize w.written = y at *
  cases hwritten <;> rfl

/-- A change that looks at no write. -/
theorem change (h : v.Kindred w) {g : Variable → Variable}
    (hg : ∀ u, (g u).unwritten = (g u.unwritten).unwritten) (hwritten : ∀ u, (g u).written = u.written) :
    (g v).Kindred (g w) :=
  ⟨by rw [hg v, hg w, h.same], by rw [hwritten v, hwritten w]; exact h.written⟩

theorem holding (h : v.Kindred w) (value : Value) (hs : a.Kindred b) :
    (v.holding value a).Kindred (w.holding value b) :=
  ⟨congrArg (fun u : Variable => { u with value, mask := none }) h.same, .some hs⟩

end Variable.Kindred

namespace Store

/-- The stores hold the same variables, up to the lines of writes. -/
structure Kindred (s t : Store) : Prop where
  globals : ∀ name, Option.Rel Variable.Kindred (s.globals.get? name) (t.globals.get? name)
  locals : ∀ key, Option.Rel Variable.Kindred (s.locals.get? key) (t.locals.get? key)
  cells : s.cells = t.cells

/-- Checked operations that come to the same fault, or to kindred stores. -/
abbrev BothKindred : Checked Store → Checked Store → Prop :=
  Checked.Both Kindred

namespace Kindred

variable {s t : Store} {name owner : String} {a b : Stamp}

theorem contains_eq (h : s.Kindred t) (key : String × String) :
    s.locals.contains key = t.locals.contains key := by
  have hlocal := h.locals key
  unfold Assoc.contains
  generalize s.locals.get? key = x at *
  generalize t.locals.get? key = y at *
  cases hlocal <;> rfl

theorem find (h : s.Kindred t) (name owner : String) :
    Option.Rel Variable.Kindred (s.find? name owner) (t.find? name owner) := by
  have hlocal := h.locals (owner, name)
  unfold find?
  generalize s.locals.get? (owner, name) = x at *
  generalize t.locals.get? (owner, name) = y at *
  cases hlocal with
  | some hvw => exact .some hvw
  | none => exact h.globals name

theorem get (h : s.Kindred t) (name owner : String) :
    Checked.Both Variable.Kindred (s.get name owner) (t.get name owner) := by
  have hfind := h.find name owner
  unfold Store.get
  generalize s.find? name owner = x at *
  generalize t.find? name owner = y at *
  cases hfind with
  | some hvw => exact hvw
  | none => exact rfl

theorem typeOf_eq (h : s.Kindred t) (name owner : String) :
    s.typeOf name owner = t.typeOf name owner := by
  unfold typeOf
  cases Reserved.ofName? name with
  | some r => rfl
  | none =>
    have hget := h.get name owner
    dsimp only
    revert hget
    rcases s.get name owner with f | v <;> rcases t.get name owner with g | w <;> intro hget
    · exact congrArg Except.error hget
    · exact hget.elim
    · exact hget.elim
    · exact congrArg Except.ok hget.type_eq

theorem writable (h : s.Kindred t) (name owner : String) :
    Checked.Both Variable.Kindred (s.writable name owner) (t.writable name owner) := by
  unfold Store.writable
  split
  · exact rfl
  · exact h.get name owner

theorem array (h : s.Kindred t) (name owner : String) :
    Checked.Both Variable.Kindred (s.array name owner) (t.array name owner) := by
  refine (h.writable name owner).bind fun v w hvw => ?_
  rw [hvw.type_eq]
  split
  · exact hvw
  · exact rfl

theorem replace (h : s.Kindred t) (name owner : String) {v w : Variable} (hvw : v.Kindred w) :
    (s.replace name owner v).Kindred (t.replace name owner w) := by
  unfold Store.replace
  rw [h.contains_eq]
  split
  · refine ⟨h.globals, fun key => ?_, h.cells⟩
    simp only [Assoc.get?_put]
    split
    · exact .some hvw
    · exact h.locals key
  · refine ⟨fun other => ?_, h.locals, h.cells⟩
    simp only [Assoc.get?_put]
    split
    · exact .some hvw
    · exact h.globals other

theorem withCells (h : s.Kindred t) (f : Cells → Cells) :
    Kindred { s with cells := f s.cells } { t with cells := f t.cells } :=
  ⟨h.globals, h.locals, by rw [h.cells]⟩

/-! ### Operations -/

theorem read (h : s.Kindred t) (now : Sources) (name owner : String) :
    Checked.Both (fun x y => x.1 = y.1 ∧ x.2.Kindred y.2) (s.read now name owner)
      (t.read now name owner) := by
  rw [read_eq, read_eq]
  split
  · rw [h.cells]
    exact ⟨rfl, h.globals, h.locals, rfl⟩
  · refine (h.get name owner).bind fun v w hvw => ?_
    rw [hvw.isNone_eq, hvw.warned_eq]
    split
    · exact ⟨by rw [hvw.type_eq, hvw.value_eq], h.replace name owner
        (hvw.change (g := fun u => { u with warned := true }) (fun _ => rfl) fun _ => rfl)⟩
    · exact ⟨by rw [hvw.value_eq], h⟩

theorem write (h : s.Kindred t) (name owner : String) (value : Value) (hs : a.Kindred b) :
    BothKindred (s.write name owner value a) (t.write name owner value b) := by
  rw [write_eq, write_eq]
  refine (h.writable name owner).bind fun v w hvw => ?_
  rw [hvw.type_eq]
  dsimp only
  split
  · exact rfl
  · exact h.replace name owner (hvw.holding value hs)

theorem clear (h : s.Kindred t) (name owner : String) (hs : a.Kindred b) :
    BothKindred (s.clear name owner a) (t.clear name owner b) := by
  rw [clear_eq, clear_eq]
  refine (h.writable name owner).bind fun v w hvw => ?_
  rw [hvw.type_eq]
  exact h.replace name owner (hvw.holding _ hs)

/-- A change of the entries of an array that looks at no write. -/
theorem changeArray (h : s.Kindred t) (name owner : String) (hs : a.Kindred b)
    {change : Variable → Checked Value} (hchange : ∀ u : Variable, change u = change u.unwritten) :
    BothKindred (s.changeArray name owner a change) (t.changeArray name owner b change) := by
  refine (h.array name owner).bind fun v w hvw => ?_
  rw [hchange v, hchange w, hvw.same]
  cases change w.unwritten with
  | error f => exact rfl
  | ok value => exact h.replace name owner (hvw.holding value hs)

theorem append (h : s.Kindred t) (name owner : String) (item : Value) (hs : a.Kindred b) :
    BothKindred (s.append name owner item a) (t.append name owner item b) := by
  rw [append_eq, append_eq]
  exact h.changeArray name owner hs fun _ => rfl

theorem extend (h : s.Kindred t) (name owner : String) (more : Value) (hs : a.Kindred b) :
    BothKindred (s.extend name owner more a) (t.extend name owner more b) := by
  rw [extend_eq, extend_eq]
  exact h.changeArray name owner hs fun _ => rfl

theorem insert (h : s.Kindred t) (name owner : String) (index : Nat) (item : Value)
    (hs : a.Kindred b) :
    BothKindred (s.insert name owner index item a) (t.insert name owner index item b) := by
  rw [insert_eq, insert_eq]
  exact h.changeArray name owner hs fun _ => rfl

theorem remove (h : s.Kindred t) (name owner : String) (first last : Nat) (hs : a.Kindred b) :
    BothKindred (s.remove name owner first last a) (t.remove name owner first last b) := by
  rw [remove_eq, remove_eq]
  exact h.changeArray name owner hs fun _ => rfl

theorem modify (h : s.Kindred t) (name owner : String) (index : Nat) (item : Value)
    (hs : a.Kindred b) :
    BothKindred (s.modify name owner index item a) (t.modify name owner index item b) := by
  rw [modify_eq, modify_eq]
  refine (h.array name owner).bind fun v w hvw => ?_
  have hcheck : checkIndex name index v = checkIndex name index w := by
    unfold checkIndex
    rw [hvw.size_eq]
  rw [hcheck, hvw.value_eq]
  cases checkIndex name index w with
  | error f => exact rfl
  | ok u =>
    cases w.value.replaceItem name index item with
    | error f => exact rfl
    | ok value =>
      refine h.replace name owner ⟨?_, .some hs⟩
      exact congrArg (fun u : Variable => { u with value }) hvw.same

theorem truncate (h : s.Kindred t) (name owner : String) (count : Nat) (hs : a.Kindred b) :
    BothKindred (s.truncate name owner count a) (t.truncate name owner count b) := by
  rw [truncate_eq, truncate_eq]
  refine (h.array name owner).bind fun v w hvw => ?_
  rw [hvw.size_eq]
  dsimp only
  split
  · exact rfl
  · split
    · exact h
    · exact h.remove name owner _ _ hs

theorem pop (h : s.Kindred t) (name owner : String) (count : Nat) (hs : a.Kindred b) :
    BothKindred (s.pop name owner count a) (t.pop name owner count b) := by
  rw [pop_eq, pop_eq]
  refine (h.array name owner).bind fun v w hvw => ?_
  rw [hvw.size_eq]
  dsimp only
  split
  · exact rfl
  · split
    · exact h
    · exact h.remove name owner _ _ hs

theorem filter (h : s.Kindred t) (name owner : String) (f : Filter) :
    Checked.Both (fun x y => x.1 = y.1 ∧ x.2.Kindred y.2) (s.filter name owner f)
      (t.filter name owner f) := by
  rw [filter_eq, filter_eq]
  refine (h.array name owner).bind fun v w hvw => ?_
  have hverdicts : f.verdicts? v.value = f.verdicts? w.value := by rw [hvw.value_eq]
  rw [hverdicts]
  cases f.verdicts? w.value with
  | none => exact congrArg (Fault.cause .typeMismatch) (by rw [hvw.type_eq])
  | some verdicts =>
    have hnarrowed := hvw.change (g := fun u => { u with mask := some (narrowed u.mask verdicts) })
      (fun _ => rfl) fun _ => rfl
    exact ⟨by rw [hvw.mask_eq], h.replace name owner hnarrowed⟩

theorem applyFilter (h : s.Kindred t) (name owner : String) (hs : a.Kindred b) :
    Checked.Both (fun x y => x.1 = y.1 ∧ x.2.Kindred y.2) (s.applyFilter name owner a)
      (t.applyFilter name owner b) := by
  rw [applyFilter_eq, applyFilter_eq]
  refine (h.array name owner).bind fun v w hvw => ?_
  rw [hvw.mask_eq]
  cases w.mask with
  | none => exact ⟨rfl, h⟩
  | some mask =>
    have hkept := hvw.holding v.filtered hs
    rw [hvw.filtered_eq] at hkept ⊢
    dsimp only
    refine ⟨?_, h.replace name owner hkept⟩
    change v.size - _ = w.size - _
    rw [hvw.size_eq, hkept.size_eq]

theorem resetFilter (h : s.Kindred t) (name owner : String) :
    BothKindred (s.resetFilter name owner) (t.resetFilter name owner) := by
  rw [resetFilter_eq, resetFilter_eq]
  refine (h.array name owner).bind fun v w hvw => ?_
  exact h.replace name owner (hvw.change (g := fun u => { u with mask := none })
    (fun _ => rfl) fun _ => rfl)

end Kindred

end Store

end CommandScript
