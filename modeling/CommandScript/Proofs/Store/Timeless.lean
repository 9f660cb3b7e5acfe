import CommandScript.Proofs.Couples
import CommandScript.Proofs.Store.Fits

/-!
# Stores without the moments of writes

The moment of a write is kept beside a variable, and no operation looks at it. So an operation on a
store from which the moments are struck out (`Store.timeless`) comes to the same as the operation on
the store itself, its moments struck out afterwards.
-/

namespace CommandScript

namespace Assoc

variable {κ α β : Type} [DecidableEq κ]

/-- The map with every value changed. -/
def mapValues (f : α → β) (m : Assoc κ α) : Assoc κ β :=
  m.map fun e => (e.1, f e.2)

@[simp] theorem get?_mapValues (f : α → β) (k : κ) (m : Assoc κ α) :
    get? k (mapValues f m) = (get? k m).map f := by
  induction m with
  | nil => rfl
  | cons e m ih =>
    change (if e.1 = k then some (f e.2) else get? k (mapValues f m)) = _
    rw [ih, get?]
    split <;> rfl

@[simp] theorem contains_mapValues (f : α → β) (k : κ) (m : Assoc κ α) :
    contains k (mapValues f m) = contains k m := by
  simp [contains]

theorem mapValues_put (f : α → β) (k : κ) (a : α) (m : Assoc κ α) :
    mapValues f (put k a m) = put k (f a) (mapValues f m) := by
  induction m with
  | nil => rfl
  | cons e m ih =>
    change mapValues f (if e.1 = k then (k, a) :: m else e :: put k a m) =
      if e.1 = k then (k, f a) :: mapValues f m else (e.1, f e.2) :: put k (f a) (mapValues f m)
    split
    · rfl
    · rw [← ih]
      rfl

end Assoc

/-- The stamp without its moment. -/
def Stamp.timeless (stamp : Stamp) : Stamp :=
  { stamp with moment := .epoch }

/-- The variable without the moment of its last write. -/
def Variable.timeless (v : Variable) : Variable :=
  { v with written := v.written.map Stamp.timeless }

namespace Variable

variable (v : Variable)

@[simp] theorem type_timeless : v.timeless.type = v.type := rfl

@[simp] theorem value_timeless : v.timeless.value = v.value := rfl

@[simp] theorem mask_timeless : v.timeless.mask = v.mask := rfl

@[simp] theorem warned_timeless : v.timeless.warned = v.warned := rfl

@[simp] theorem size_timeless : v.timeless.size = v.size := rfl

@[simp] theorem filtered_timeless : v.timeless.filtered = v.filtered := rfl

@[simp] theorem isNone_written_timeless : v.timeless.written.isNone = v.written.isNone := by
  rw [timeless, Option.isNone_map]

@[simp] theorem timeless_holding (value : Value) (stamp : Stamp) :
    (v.holding value stamp).timeless = v.timeless.holding value stamp.timeless := rfl

end Variable

namespace Store

/-- The store without the moments of writes. -/
def timeless (s : Store) : Store :=
  { s with
    globals := s.globals.mapValues Variable.timeless
    locals := s.locals.mapValues Variable.timeless }

variable (s : Store) (name owner : String) (stamp : Stamp)

theorem timeless_find? :
    s.timeless.find? name owner = (s.find? name owner).map Variable.timeless := by
  simp only [find?, timeless, Assoc.get?_mapValues]
  cases s.locals.get? (owner, name) <;> rfl

theorem timeless_get : s.timeless.get name owner = Variable.timeless <$> s.get name owner := by
  unfold get
  rw [timeless_find?]
  cases s.find? name owner <;> rfl

theorem timeless_typeOf : s.timeless.typeOf name owner = s.typeOf name owner := by
  unfold typeOf
  rw [timeless_get]
  cases Reserved.ofName? name with
  | some r => rfl
  | none => cases s.get name owner <;> rfl

theorem timeless_replace (v : Variable) :
    (s.replace name owner v).timeless = s.timeless.replace name owner v.timeless := by
  have hcontains : s.timeless.locals.contains (owner, name) = s.locals.contains (owner, name) :=
    Assoc.contains_mapValues _ _ _
  unfold replace
  rw [hcontains]
  split
  · exact congrArg (fun m => { s.timeless with locals := m }) (Assoc.mapValues_put ..)
  · exact congrArg (fun m => { s.timeless with globals := m }) (Assoc.mapValues_put ..)

theorem timeless_writable :
    s.timeless.writable name owner = Variable.timeless <$> s.writable name owner := by
  unfold writable
  split
  · rfl
  · exact s.timeless_get name owner

theorem timeless_array :
    s.timeless.array name owner = Variable.timeless <$> s.array name owner := by
  simp only [array, timeless_writable, map_bind, bind_map_left]
  refine bind_congr fun v => ?_
  change (if v.type.isArray then _ else _) =
    Variable.timeless <$> (if v.type.isArray then _ else _ : Checked Variable)
  split <;> rfl

/-! ### Operations -/

theorem timeless_write (value : Value) : timeless <$> s.write name owner value stamp =
    s.timeless.write name owner value stamp.timeless := by
  simp only [write_eq, timeless_writable, map_bind, bind_map_left]
  refine bind_congr fun v => ?_
  simp only [Variable.type_timeless, ← Variable.timeless_holding, ← timeless_replace]
  split <;> rfl

theorem timeless_clear : timeless <$> s.clear name owner stamp =
    s.timeless.clear name owner stamp.timeless := by
  simp only [clear_eq, timeless_writable, map_bind, bind_map_left]
  refine bind_congr fun v => ?_
  simp only [Variable.type_timeless, ← Variable.timeless_holding, ← timeless_replace]
  rfl

/-- Changing entries looks at the entries only. -/
theorem timeless_changeArray {change : Variable → Checked Value}
    (h : ∀ v : Variable, change v.timeless = change v) :
    timeless <$> s.changeArray name owner stamp change =
      s.timeless.changeArray name owner stamp.timeless change := by
  simp only [changeArray, timeless_array, map_bind, bind_map_left]
  refine bind_congr fun v => ?_
  rw [h]
  simp only [← Variable.timeless_holding, ← timeless_replace]
  rfl

theorem timeless_append (item : Value) : timeless <$> s.append name owner item stamp =
    s.timeless.append name owner item stamp.timeless := by
  simp only [append_eq]
  exact s.timeless_changeArray name owner stamp fun _ => rfl

theorem timeless_extend (more : Value) : timeless <$> s.extend name owner more stamp =
    s.timeless.extend name owner more stamp.timeless := by
  simp only [extend_eq]
  exact s.timeless_changeArray name owner stamp fun _ => rfl

theorem timeless_insert (index : Nat) (item : Value) :
    timeless <$> s.insert name owner index item stamp =
      s.timeless.insert name owner index item stamp.timeless := by
  simp only [insert_eq]
  exact s.timeless_changeArray name owner stamp fun _ => rfl

theorem timeless_modify (index : Nat) (item : Value) :
    timeless <$> s.modify name owner index item stamp =
      s.timeless.modify name owner index item stamp.timeless := by
  simp only [modify_eq, timeless_array, map_bind, bind_map_left]
  refine bind_congr fun v => ?_
  refine bind_congr fun _ => bind_congr fun value => ?_
  exact congrArg Except.ok (s.timeless_replace name owner _)

theorem timeless_remove (first last : Nat) :
    timeless <$> s.remove name owner first last stamp =
      s.timeless.remove name owner first last stamp.timeless := by
  simp only [remove_eq]
  exact s.timeless_changeArray name owner stamp fun _ => rfl

theorem timeless_truncate (count : Nat) : timeless <$> s.truncate name owner count stamp =
    s.timeless.truncate name owner count stamp.timeless := by
  simp only [truncate_eq, timeless_array, map_bind, bind_map_left, Variable.size_timeless,
    ← timeless_remove]
  refine bind_congr fun v => ?_
  change timeless <$> (if v.size < count then _ else _) = if v.size < count then _ else _
  split
  · rfl
  · split <;> rfl

theorem timeless_pop (count : Nat) : timeless <$> s.pop name owner count stamp =
    s.timeless.pop name owner count stamp.timeless := by
  simp only [pop_eq, timeless_array, map_bind, bind_map_left, Variable.size_timeless,
    ← timeless_remove]
  refine bind_congr fun v => ?_
  change timeless <$> (if v.size < count then _ else _) = if v.size < count then _ else _
  split
  · rfl
  · split <;> rfl

theorem timeless_filter (f : Filter) : Prod.map id timeless <$> s.filter name owner f =
    s.timeless.filter name owner f := by
  simp only [filter_eq, timeless_array, map_bind, bind_map_left, Variable.value_timeless]
  refine bind_congr fun v => ?_
  cases f.verdicts? v.value with
  | none => rfl
  | some verdicts =>
    exact congrArg (fun t => Except.ok ((narrowed v.mask verdicts).count true, t))
      (s.timeless_replace name owner _)

theorem timeless_applyFilter : Prod.map id timeless <$> s.applyFilter name owner stamp =
    s.timeless.applyFilter name owner stamp.timeless := by
  simp only [applyFilter_eq, timeless_array, map_bind, bind_map_left, Variable.mask_timeless]
  refine bind_congr fun v => ?_
  cases v.mask with
  | none => rfl
  | some mask =>
    exact congrArg (fun t => Except.ok (v.size - (v.holding v.filtered stamp).size, t))
      (s.timeless_replace name owner _)

theorem timeless_resetFilter : timeless <$> s.resetFilter name owner =
    s.timeless.resetFilter name owner := by
  simp only [resetFilter_eq, timeless_array, map_bind, bind_map_left]
  refine bind_congr fun v => ?_
  exact congrArg Except.ok (s.timeless_replace name owner _)

/-- The name is that of a reserved variable that shows the clock. -/
def showsClock (name : String) : Bool :=
  (Reserved.ofName? name).any fun r => r = .date ∨ r = .time

/-- A read of any name but two is the same whatever the clock says. -/
theorem timeless_read {now now' : Sources} (hdraw : now.draw = now'.draw)
    (h : showsClock name = false) :
    Prod.map id timeless <$> s.read now name owner = s.timeless.read now' name owner := by
  rw [read_eq, read_eq]
  unfold showsClock at h
  cases hr : Reserved.ofName? name with
  | some r =>
    rw [hr] at h
    have hread : s.cells.read now' r = s.cells.read now r := by
      cases r
      case date => cases h
      case time => cases h
      case random => simp only [Cells.read, Cells.number, hdraw]
      all_goals rfl
    change _ = Except.ok (({ value := (s.cells.read now' r).1 } : Reading),
      ({ s with cells := (s.cells.read now' r).2 } : Store).timeless)
    rw [hread]
    rfl
  | none =>
    simp only [timeless_get, map_bind, bind_map_left, Variable.isNone_written_timeless,
      Variable.warned_timeless, Variable.type_timeless, Variable.value_timeless]
    refine bind_congr fun v => ?_
    split
    · exact congrArg (fun t => Except.ok (_, t)) (s.timeless_replace name owner _)
    · rfl

/-! ### Two stores -/

/-- The stores differ in the moments of writes at most, and where `same` holds they do not differ. -/
structure Alike (same : Prop) (s t : Store) : Prop where
  timeless : s.timeless = t.timeless
  eq : same → s = t

variable {same : Prop} {s t : Store} {α : Type}

theorem Alike.refl (same : Prop) (s : Store) : s.Alike same s :=
  ⟨rfl, fun _ => rfl⟩

theorem Alike.withCells (h : s.Alike same t) (f : Cells → Cells) :
    Alike same { s with cells := f s.cells } { t with cells := f t.cells } := by
  refine ⟨?_, fun hs => by rw [h.eq hs]⟩
  exact congrArg (fun u : Store => { u with cells := f u.cells }) h.timeless

/-- Operations that come to the same without the moments come to values and stores alike. -/
theorem both_of_timeless {x y : Checked (α × Store)}
    (h : Prod.map id Store.timeless <$> x = Prod.map id Store.timeless <$> y) (hs : same → x = y) :
    Checked.Both (fun a b => a.1 = b.1 ∧ a.2.Alike same b.2) x y := by
  rcases x with f | ⟨a, s⟩ <;> rcases y with g | ⟨b, t⟩
  · exact Except.error.inj h
  · cases h
  · cases h
  · have h := Prod.mk.inj (Except.ok.inj h)
    exact ⟨h.1, h.2, fun hsame => (Prod.mk.inj (Except.ok.inj (hs hsame))).2⟩

/-- The variables that a name denotes in stores alike. -/
theorem Alike.both_get (h : s.Alike same t) (name owner : String) :
    Checked.Both (fun v w => v.timeless = w.timeless ∧ (same → v = w)) (s.get name owner)
      (t.get name owner) := by
  have hget : Variable.timeless <$> s.get name owner = Variable.timeless <$> t.get name owner := by
    rw [← timeless_get, ← timeless_get, h.timeless]
  have hsame (hs : same) : s.get name owner = t.get name owner := by rw [h.eq hs]
  rcases hv : s.get name owner with f | v <;> rcases hw : t.get name owner with g | w <;>
    rw [hv, hw] at hget hsame
  · exact Except.error.inj hget
  · cases hget
  · cases hget
  · exact ⟨Except.ok.inj hget, fun hs => Except.ok.inj (hsame hs)⟩

theorem map_find?_timeless (s : Store) (name owner : String) {β : Type} {g : Variable → β}
    (hg : ∀ v : Variable, g v.timeless = g v) :
    (s.timeless.find? name owner).map g = (s.find? name owner).map g := by
  rw [timeless_find?, Option.map_map]
  exact Option.map_congr fun v _ => hg v

/-- Stores alike hold the same variables. -/
theorem Alike.fits {base : Store} (h : s.Alike same t) (hs : base.Fits s) : base.Fits t := by
  have found {name owner : String} {w : Variable} (hw : t.find? name owner = some w) :
      ∃ v, s.find? name owner = some v ∧ v.timeless = w.timeless := by
    have hsome : (s.find? name owner).map Variable.timeless = some w.timeless := by
      rw [← timeless_find?, h.timeless, timeless_find?, hw]
      rfl
    exact Option.map_eq_some_iff.mp hsome
  constructor
  · intro name owner
    rw [← t.map_find?_timeless name owner fun _ => rfl, ← h.timeless,
      s.map_find?_timeless name owner fun _ => rfl]
    exact hs.type_eq name owner
  · intro name owner w hw
    obtain ⟨v, hv, heq⟩ := found hw
    have hvalue : v.value = w.value := (congrArg Variable.value heq :)
    have htype : v.type = w.type := (congrArg Variable.type heq :)
    exact hvalue ▸ htype ▸ hs.value hv
  · intro name owner w hw
    obtain ⟨v, hv, -⟩ := found hw
    exact hs.name hv
  · intro name owner w hw
    obtain ⟨v, hv, -⟩ := found hw
    exact hs.unreserved hv

theorem Alike.typeOf_eq (h : s.Alike same t) (name owner : String) :
    s.typeOf name owner = t.typeOf name owner := by
  rw [← timeless_typeOf, h.timeless, timeless_typeOf]

/-- A change that comes to the same on stores without moments keeps stores alike. -/
theorem Alike.both_change (h : s.Alike same t) {f : Stamp → Store → Checked (α × Store)}
    (hf : ∀ stamp u, Prod.map id Store.timeless <$> f stamp u = f stamp.timeless u.timeless)
    {stamp stamp' : Stamp} (hline : stamp.line = stamp'.line) (hs : same → stamp = stamp') :
    Checked.Both (fun a b => a.1 = b.1 ∧ a.2.Alike same b.2) (f stamp s) (f stamp' t) := by
  have hstamp : stamp.timeless = stamp'.timeless := by
    rw [Stamp.timeless, Stamp.timeless, hline]
  refine both_of_timeless ?_ fun hsame => by rw [h.eq hsame, hs hsame]
  rw [hf, hf, h.timeless, hstamp]

theorem Alike.both_read (h : s.Alike same t) {name : String} (owner : String) {now now' : Sources}
    (hdraw : now.draw = now'.draw) (hname : same ∨ showsClock name = false) (hs : same → now = now') :
    Checked.Both (fun a b => a.1 = b.1 ∧ a.2.Alike same b.2) (s.read now name owner)
      (t.read now' name owner) := by
  have hsame (hsame : same) : s.read now name owner = t.read now' name owner := by
    rw [h.eq hsame, hs hsame]
  refine both_of_timeless ?_ hsame
  rcases hname with hyes | hname
  · rw [hsame hyes]
  · rw [s.timeless_read name owner hdraw hname, t.timeless_read name owner rfl hname, h.timeless]

end Store

end CommandScript
