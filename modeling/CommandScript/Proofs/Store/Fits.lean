import CommandScript.Proofs.Bookkeeping

/-!
# Variables keep their types

While a program runs its store keeps the variables that it began with: each keeps its type and holds
a value of this type (`Store.Fits`). Every operation puts a changed variable in the place of an old
one of the same type (`Fits.replace`), and none says that bookkeeping is missing.
-/

namespace CommandScript

theorem Variable.type_filtered (v : Variable) : v.filtered.type = v.value.type := by
  unfold Variable.filtered
  split <;> simp_all [Value.type]

/-- The type of the arrays that the filter is made for. -/
def Filter.target : Filter → ValueType
  | text .. => .strings
  | number .. => .integers

theorem Filter.verdicts?_of_type {f : Filter} {v : Value} (h : v.type = f.target) :
    f.verdicts? v ≠ none := by
  cases f <;> cases v <;> cases h <;> exact nofun

namespace Store

/-- The second store has the variables of the first one and each holds a value of its type; all of
them have valid names that are not reserved. -/
structure Fits (s t : Store) : Prop where
  type_eq : ∀ name owner,
    (t.find? name owner).map Variable.type = (s.find? name owner).map Variable.type
  value : ∀ {name owner v}, t.find? name owner = some v → v.value.type = v.type
  name : ∀ {name owner v}, t.find? name owner = some v → isValidName name = true
  unreserved : ∀ {name owner v}, t.find? name owner = some v → Reserved.ofName? name = none

variable {s t : Store} {name owner : String} {v w : Variable}

/-- Replacing a variable changes what names denote only where they denote this variable. -/
theorem find?_replace (h : t.find? name owner = some v) (name' owner' : String) :
    (t.replace name owner w).find? name' owner' = t.find? name' owner' ∨
      t.find? name' owner' = some v ∧ (t.replace name owner w).find? name' owner' = some w := by
  unfold replace
  cases hlocal : t.locals.get? (owner, name) with
  | some u =>
    have hu : u = v := by
      simp only [find?, hlocal, Option.some.injEq] at h
      exact h
    subst hu
    simp only [Assoc.contains, hlocal, Option.isSome_some, ↓reduceIte, find?, Assoc.get?_put]
    by_cases hkey : (owner, name) = (owner', name')
    · cases hkey
      right
      simp [hlocal]
    · left
      simp only [hkey, ↓reduceIte]
  | none =>
    have hv : t.globals.get? name = some v := by
      simp only [find?, hlocal] at h
      exact h
    simp only [Assoc.contains, hlocal, Option.isSome_none, Bool.false_eq_true, ↓reduceIte, find?,
      Assoc.get?_put]
    cases hother : t.locals.get? (owner', name') with
    | some u => exact .inl rfl
    | none =>
      by_cases hname : name = name'
      · subst hname
        right
        simp [hv]
      · left
        simp only [hname, ↓reduceIte]

namespace Fits

theorem typeOf_eq (h : s.Fits t) (name owner : String) :
    t.typeOf name owner = s.typeOf name owner := by
  unfold typeOf get
  cases Reserved.ofName? name with
  | some r => rfl
  | none =>
    have htype := h.type_eq name owner
    cases ht : t.find? name owner <;> cases hs : s.find? name owner <;> rw [ht, hs] at htype
    · cases htype
    · cases htype
    · exact congrArg Except.ok (Option.some.inj htype)

theorem replace (h : s.Fits t) (hv : t.find? name owner = some v) (ht : w.type = v.type)
    (hw : w.value.type = w.type) : s.Fits (t.replace name owner w) where
  type_eq name' owner' := by
    rw [← h.type_eq]
    rcases find?_replace (w := w) hv name' owner' with heq | ⟨hold, hnew⟩
    · rw [heq]
    · rw [hold, hnew, Option.map_some, Option.map_some, ht]
  value := by
    intro name' owner' u hu
    rcases find?_replace (w := w) hv name' owner' with heq | ⟨-, hnew⟩
    · exact h.value (heq ▸ hu)
    · rw [hnew, Option.some.injEq] at hu
      subst hu
      exact hw
  name := by
    intro name' owner' u hu
    rcases find?_replace (w := w) hv name' owner' with heq | ⟨hold, -⟩
    · exact h.name (heq ▸ hu)
    · exact h.name hold
  unreserved := by
    intro name' owner' u hu
    rcases find?_replace (w := w) hv name' owner' with heq | ⟨hold, -⟩
    · exact h.unreserved (heq ▸ hu)
    · exact h.unreserved hold

theorem withCells (h : s.Fits t) (cells : Cells) : s.Fits { t with cells } :=
  ⟨h.type_eq, h.value, h.name, h.unreserved⟩

end Fits

/-! ### Operations -/

theorem yields_get (t : Store) (name owner : String) :
    (t.get name owner).Yields (fun v => t.find? name owner = some v) fun f =>
      f.kind = .undefined ∧ t.find? name owner = none := by
  unfold get
  split
  · rename_i v hv
    exact hv
  · exact ⟨rfl, ‹_›⟩

theorem fair_get {p : Prop} (t : Store) (name owner : String) : (t.get name owner).Fair p :=
  (t.yields_get name owner).imp (fun _ _ => trivial) fun _ hf =>
    Fault.allowed_of_kind hf.1 (by decide) (by decide)

theorem fair_typeOf {p : Prop} (t : Store) (name owner : String) :
    (t.typeOf name owner).Fair p := by
  unfold typeOf
  split
  · trivial
  · exact (t.fair_get name owner).map

/-- The type of the name, if it has one, is as wanted. -/
def HasType (s : Store) (name owner : String) (p : ValueType → Prop) : Prop :=
  ∀ type, s.typeOf name owner = .ok type → p type

/-- The name is that of an array that takes such an item for an entry. -/
def Takes (s : Store) (name owner : String) (item : ValueType) : Prop :=
  s.HasType name owner fun type => type.isArray = true ∧ (type = .integers → item.isArray = false)

theorem Takes.isArray {s : Store} {name owner : String} {item : ValueType}
    (h : s.Takes name owner item) : s.HasType name owner (·.isArray = true) :=
  fun type ht => (h type ht).1

theorem fair_checkIndex {p : Prop} {name : String} (hn : isValidName name = true) (index : Nat)
    (v : Variable) : (checkIndex name index v).Fair p :=
  Checked.yields_ite (fun _ => Fault.allowed_runtime (Bookkeeping.not_of_name hn _ _ _ _)) fun _ =>
    trivial

/-- A store operation keeps the variables and has only faults that are allowed. -/
abbrev Keeps (s : Store) (fitting : Prop) (x : Checked Store) : Prop :=
  x.Yields s.Fits (Fault.Allowed fitting)

namespace Fits

variable (h : s.Fits t) (name owner : String) (stamp : Stamp)

include h

/-- What may be changed under a name is the variable that the name denotes. -/
theorem yields_writable {p : Prop} :
    (t.writable name owner).Yields
      (fun v => t.find? name owner = some v ∧ s.typeOf name owner = .ok v.type)
      (Fault.Allowed p) := by
  rw [← h.typeOf_eq]
  unfold writable typeOf
  split
  · exact Fault.allowed_runtime (Bookkeeping.not_of_head (c := '$')
      (head_append (head_append (by decide))) rfl)
  · refine (t.yields_get name owner).imp (fun v hv => ⟨hv, ?_⟩) fun _ hf =>
      Fault.allowed_of_kind hf.1 (by decide) (by decide)
    rw [get, hv]
    rfl

theorem yields_array :
    (t.array name owner).Yields
      (fun v => t.find? name owner = some v ∧ s.typeOf name owner = .ok v.type ∧
        v.type.isArray = true)
      (Fault.Allowed (s.HasType name owner (·.isArray = true))) := by
  refine (h.yields_writable name owner).bind fun v ⟨hv, ht⟩ => ?_
  exact Checked.yields_ite (fun ha => ⟨hv, ht, ha⟩) fun ha =>
    Fault.allowed_mismatch rfl fun htype => ha (htype _ ht)

theorem keeps_write (value : Value) :
    s.Keeps (s.HasType name owner (value.type = ·)) (t.write name owner value stamp) := by
  rw [write_eq]
  refine (h.yields_writable name owner).bind fun v ⟨hv, ht⟩ => ?_
  dsimp only
  split
  · rename_i htype
    exact Fault.allowed_mismatch rfl fun hfit => htype (hfit _ ht)
  · rename_i htype
    exact h.replace hv rfl (Decidable.not_not.mp htype)

theorem keeps_clear {p : Prop} : s.Keeps p (t.clear name owner stamp) := by
  rw [clear_eq]
  exact (h.yields_writable name owner).bind fun _ hv => h.replace hv.1 rfl (Value.type_zero _)

theorem keeps_changeArray {p : Prop} (hp : p → s.HasType name owner (·.isArray = true))
    {change : Variable → Checked Value}
    (hc : ∀ v, t.find? name owner = some v → s.typeOf name owner = .ok v.value.type →
      (change v).Yields (fun w => w.type = v.value.type) (Fault.Allowed p)) :
    s.Keeps p (t.changeArray name owner stamp change) := by
  refine ((h.yields_array name owner).imp (fun _ => id) fun _ hf => hf.imp hp).bind
    fun v ⟨hv, ht, _⟩ => ?_
  rw [← h.value hv] at ht
  exact (hc v hv ht).bind fun _ hw => h.replace hv rfl (hw.trans (h.value hv))

theorem keeps_append (item : Value) :
    s.Keeps (s.Takes name owner item.type) (t.append name owner item stamp) := by
  rw [append_eq]
  exact h.keeps_changeArray name owner stamp (·.isArray) fun v _ ht =>
    (v.value.yields_changeWith name item _).imp (fun _ => id) fun _ hf => hf.imp fun hp => hp _ ht

theorem keeps_extend (more : Value) :
    s.Keeps (s.HasType name owner (·.isArray = true)) (t.extend name owner more stamp) := by
  rw [extend_eq]
  exact h.keeps_changeArray name owner stamp id fun v _ ht =>
    (v.value.yields_extendItems name more).imp (fun _ => id) fun _ hf => hf.imp fun hp => hp _ ht

theorem keeps_insert (index : Nat) (item : Value) :
    s.Keeps (s.Takes name owner item.type) (t.insert name owner index item stamp) := by
  rw [insert_eq]
  exact h.keeps_changeArray name owner stamp (·.isArray) fun v hv ht => Checked.yields_ite
    (fun _ => Fault.allowed_runtime (Bookkeeping.not_of_name (h.name hv) _ _ _ _)) fun _ =>
    (v.value.yields_changeWith name item _).imp (fun _ => id) fun _ hf => hf.imp fun hp => hp _ ht

theorem keeps_modify (index : Nat) (item : Value) :
    s.Keeps (s.Takes name owner item.type) (t.modify name owner index item stamp) := by
  rw [modify_eq]
  refine ((h.yields_array name owner).imp (fun _ => id) fun _ hf => hf.imp (·.isArray)).bind
    fun v ⟨hv, ht, _⟩ => ?_
  refine Checked.Yields.bind (fair_checkIndex (h.name hv) index v) fun _ _ => ?_
  rw [← h.value hv] at ht
  refine ((v.value.yields_changeWith name item _).imp (fun _ => id) fun _ hf =>
    hf.imp fun hp => hp _ ht).bind fun _ hw => h.replace hv rfl (hw.trans (h.value hv))

theorem keeps_remove (first last : Nat) :
    s.Keeps (s.HasType name owner (·.isArray = true)) (t.remove name owner first last stamp) := by
  rw [remove_eq]
  refine h.keeps_changeArray name owner stamp id fun v hv ht => ?_
  dsimp only
  split
  · exact Fault.allowed_runtime (Bookkeeping.not_of_name (h.name hv) _ _ _ _)
  · exact Checked.Yields.bind (fair_checkIndex (h.name hv) last v) fun _ _ =>
      (v.value.yields_change name _).imp (fun _ => id) fun _ hf => hf.imp fun hp => hp _ ht

/-- Shortening an array keeps the variables; a complaint that opens with the letter c is no error of
bookkeeping. -/
theorem keeps_shortening (count : Nat) (complaint : Nat → String) (first last : Nat → Nat)
    (hcomplaint : ∀ size, (complaint size).toList.head? = some 'c') :
    s.Keeps (s.HasType name owner (·.isArray = true)) (do
      let v ← t.array name owner
      if v.size < count then
        Checked.fail .runtime (complaint v.size)
      if count = 0 then return t
      t.remove name owner (first v.size) (last v.size) stamp) := by
  refine (h.yields_array name owner).bind fun v _ => ?_
  dsimp only
  split
  · exact Fault.allowed_runtime (Bookkeeping.not_of_head (hcomplaint v.size) rfl)
  · exact Checked.yields_ite (fun _ => h) fun _ => h.keeps_remove ..

theorem keeps_truncate (count : Nat) :
    s.Keeps (s.HasType name owner (·.isArray = true)) (t.truncate name owner count stamp) := by
  rw [truncate_eq]
  exact h.keeps_shortening name owner stamp count
    (fun size => s!"cannot truncate {count} entries from {name} (size {size})") (· - count) (· - 1)
    fun _ => head_append
      (head_append (head_append (head_append (head_append (head_append (by decide))))))

theorem keeps_pop (count : Nat) :
    s.Keeps (s.HasType name owner (·.isArray = true)) (t.pop name owner count stamp) := by
  rw [pop_eq]
  exact h.keeps_shortening name owner stamp count
    (fun size => s!"cannot pop {count} entries from {name} (size {size})") (fun _ => 0)
    (fun _ => count - 1) fun _ => head_append
      (head_append (head_append (head_append (head_append (head_append (by decide))))))

theorem keeps_filter (f : Filter) :
    (t.filter name owner f).Yields (fun r => s.Fits r.2)
      (Fault.Allowed (s.HasType name owner (· = f.target))) := by
  have harray : s.HasType name owner (· = f.target) → s.HasType name owner (·.isArray = true) :=
    fun hp type ht => by cases f <;> rw [hp type ht] <;> rfl
  rw [filter_eq]
  refine ((h.yields_array name owner).imp (fun _ => id) fun _ hf => hf.imp harray).bind
    fun v ⟨hv, ht, _⟩ => ?_
  dsimp only
  split
  · rename_i hnone
    rw [← h.value hv] at ht
    exact Fault.allowed_mismatch rfl fun hp => Filter.verdicts?_of_type (hp _ ht) hnone
  · exact h.replace hv rfl (h.value hv :)

theorem keeps_applyFilter :
    (t.applyFilter name owner stamp).Yields (fun r => s.Fits r.2)
      (Fault.Allowed (s.HasType name owner (·.isArray = true))) := by
  rw [applyFilter_eq]
  refine (h.yields_array name owner).bind fun v ⟨hv, _⟩ => ?_
  dsimp only
  split
  · exact h
  · exact h.replace hv rfl (v.type_filtered.trans (h.value hv))

theorem keeps_resetFilter :
    s.Keeps (s.HasType name owner (·.isArray = true)) (t.resetFilter name owner) := by
  rw [resetFilter_eq]
  exact (h.yields_array name owner).bind fun _ ⟨hv, _⟩ => h.replace hv rfl (h.value hv :)

/-- A read gives a value of the type of the name, and fails where the name denotes nothing. -/
theorem yields_read (now : Sources) :
    (t.read now name owner).Yields
      (fun r => s.typeOf name owner = .ok r.1.value.type ∧ s.Fits r.2)
      fun f => f.kind = .undefined ∧ ∀ type, s.typeOf name owner ≠ .ok type := by
  rw [← h.typeOf_eq]
  rw [read_eq]
  unfold typeOf
  split
  · rename_i r hr
    exact ⟨congrArg Except.ok (t.cells.type_read now r).symm, h.withCells _⟩
  · refine Checked.Yields.bind (Q := fun v => t.find? name owner = some v)
      ((t.yields_get name owner).imp (fun _ => id) fun f hf => ⟨hf.1, fun type => ?_⟩) fun v hv => ?_
    · simp [get, hf.2, undefined, Checked.fail, Functor.map, Except.map]
    · have htype : Variable.type <$> t.get name owner = .ok v.value.type := by
        rw [get, hv, h.value hv]
        rfl
      dsimp only
      split
      · exact ⟨htype, h.replace hv rfl (h.value hv :)⟩
      · exact ⟨htype, h⟩

end Fits

end Store

end CommandScript
