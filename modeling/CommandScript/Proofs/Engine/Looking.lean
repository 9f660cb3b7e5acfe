import CommandScript.Engine.Viewpoint
import CommandScript.Proofs.Store.Fits
import CommandScript.Proofs.Store.Operations
import CommandScript.Proofs.Typing

/-!
# Looking up references that have a type

What can be read from a viewpoint is a context, so the compiler's rules give references a type
there. `Viewpoint.stays_look` goes through the look-up beside these rules: where the rules give a
type, a value has it, and the only faults are those of positions, of index variables whose text is
no number, and of `WRITER` and `WRITETIME` on a reserved variable, which nobody writes.
-/

namespace CommandScript

/-! ### The faults -/

/-- How an index fails at a bound that is a variable. -/
inductive BoundFault (c : Context) (name : String) (f : Fault) : Prop
  | position : PositionFault f → BoundFault c name f
  | text : f.kind = .format ∨ f.kind = .overflow → c.isLoop name = false →
      c.typeOf name = .ok .string → BoundFault c name f
  | uncounted : f.kind = .undefined ∨ f.kind = .typeMismatch → ¬c.Counts name → BoundFault c name f

/-- How looking up a reference fails. -/
inductive LookFault (c : Context) (r : Reference) (f : Fault) : Prop
  | position : PositionFault f → LookFault c r f
  | text {name : String} : f.kind = .format ∨ f.kind = .overflow → name ∈ r.indexNames →
      c.isLoop name = false → c.typeOf name = .ok .string → LookFault c r f
  /-- Nobody keeps a record of who writes a reserved variable. -/
  | unstamped {view : Trait} : f.kind = .undefined → r.trait = some view →
      view.isMetadata = true → (Reserved.ofName? r.name).isSome = true → LookFault c r f
  | untyped : f.kind = .undefined ∨ f.kind = .typeMismatch ∨ f.kind = .traitType →
      (∀ t, c.referenceType r ≠ .ok t) → LookFault c r f

theorem BoundFault.lookFault {c : Context} {name : String} {r : Reference} {f : Fault}
    (h : BoundFault c name f) (hname : name ∈ r.indexNames) : LookFault c r f := by
  cases h with
  | position h => exact .position h
  | text hf hl ht => exact .text hf hname hl ht
  | uncounted hf hn =>
    exact .untyped (hf.imp_right .inl) fun t ht =>
      hn ((Context.referenceType_ok.mp ht).1 name hname)

/-! ### The look-up -/

theorem yields_memoryRead {s : Store} {m : Memory} (h : s.Fits m.store) (name owner : String) :
    (m.read name owner).Yields
      (fun r => s.Fits r.2.store ∧ s.typeOf name owner = .ok r.1.type)
      fun f => f.kind = .undefined ∧ ∀ type, s.typeOf name owner ≠ .ok type := by
  rw [Memory.read_eq]
  refine (h.yields_read name owner m.sources).bind fun ⟨reading, store⟩ ⟨ht, hfits⟩ => ?_
  dsimp only
  split
  · exact ⟨hfits, ht⟩
  · exact ⟨hfits, ht⟩

/-- A user variable is found where its name has a type. -/
theorem Store.Fits.yields_found {s t : Store} (h : s.Fits t) (name owner : String) :
    (t.get name owner).Yields
      (fun found => ¬(Reserved.ofName? name).isSome = true →
        s.typeOf name owner = .ok found.filtered.type)
      fun f => f.kind = .undefined ∧ ((Reserved.ofName? name).isSome = true ∨
        ∀ type, s.typeOf name owner ≠ .ok type) := by
  refine (t.yields_get name owner).imp (fun found hfound hreserved => ?_) fun f hf => ⟨hf.1, ?_⟩
  · rw [← h.typeOf_eq, Store.typeOf, Option.not_isSome_iff_eq_none.mp hreserved, Store.get, hfound,
      found.type_filtered, h.value hfound]
    rfl
  · cases hr : Reserved.ofName? name with
    | some r => exact .inl rfl
    | none =>
      refine .inr fun type ht => ?_
      rw [← h.typeOf_eq, Store.typeOf, hr, Store.get, hf.2] at ht
      cases ht

namespace Viewpoint

variable (v : Viewpoint) (s : Store)

/-- What can be read from the viewpoint. -/
def context : Context where
  store := s
  owner := v.owner
  loops := (v.loops.filter fun l => l.depth == v.depth).map (·.id)

theorem isLoop_context (name : String) :
    (v.context s).isLoop name = (v.loopValue? name).isSome := by
  rw [Bool.eq_iff_iff]
  simp [Context.isLoop, context, loopValue?]

variable {v s}

theorem isLoop_of_none {name : String} (h : v.loopValue? name = none) :
    (v.context s).isLoop name = false := by
  rw [isLoop_context, h]
  rfl

theorem stays_read (name : String) :
    Stays (fun m => s.Fits m.store) (v.read name) (fun w => s.typeOf name v.owner = .ok w.type)
      fun f => f.kind = .undefined ∧ ∀ type, s.typeOf name v.owner ≠ .ok type :=
  stays_atomic (x := MemoryM.read name v.owner) fun _ hm => yields_memoryRead hm name v.owner

theorem stays_position (b : Bound) :
    Stays (fun m => s.Fits m.store) (v.position b) (fun _ => True)
      fun f => ∃ name, b = .named name ∧ BoundFault (v.context s) name f := by
  cases b with
  | position n => exact stays_pure trivial
  | named name =>
    have place (n : Int64) : Stays (fun m => s.Fits m.store)
        (if n.toInt < 0 then throw (.cause .runtime s!"index {n} is negative") >>= fun _ : Unit =>
          pure n.toInt.toNat else pure n.toInt.toNat : MemoryM Nat) (fun _ => True)
        fun f => ∃ other, Bound.named name = .named other ∧ BoundFault (v.context s) other f :=
      stays_ite (fun _ _ hm => ⟨hm, name, rfl, .position (.negative n)⟩) fun _ => stays_pure trivial
    unfold position
    dsimp only
    split
    · exact place _
    · rename_i hnone
      have hl := isLoop_of_none (s := s) hnone
      refine Stays.bind (Q := fun w => s.typeOf name v.owner = .ok w.type)
        ((stays_read name).imp (fun _ => id) fun f hf =>
          ⟨name, rfl, .uncounted (.inl hf.1) fun hc => ?_⟩)
        fun w hw => Stays.bind (stays_lift ((yields_toInteger w).imp (fun _ => id) fun f hf =>
          ⟨name, rfl, ?_⟩)) fun n _ => place n
      · obtain ⟨t, ht, -⟩ := hc hl
        exact hf.2 t ht
      · rcases hf with ⟨hf, hw'⟩ | ⟨hf, ha⟩
        · exact .text hf hl (hw' ▸ hw)
        · refine .uncounted (.inr hf) fun hc => ?_
          obtain ⟨t, ht, hcount⟩ := hc hl
          obtain rfl := Except.ok.inj (hw.symm.trans ht)
          rw [Context.isArray_of_mayCount hcount] at ha
          cases ha

theorem stays_positions (i : Index) :
    Stays (fun m => s.Fits m.store) (v.positions i) (fun _ => True)
      fun f => ∃ name, .named name ∈ i.bounds ∧ BoundFault (v.context s) name f := by
  have bound {b : Bound} (hb : b ∈ i.bounds) : Stays (fun m => s.Fits m.store) (v.position b)
      (fun _ => True) fun f => ∃ name, .named name ∈ i.bounds ∧ BoundFault (v.context s) name f :=
    (stays_position b).imp (fun _ => id) fun f ⟨name, hname, hf⟩ => ⟨name, hname ▸ hb, hf⟩
  cases i with
  | single b => exact (bound List.mem_cons_self).bind fun _ _ => stays_pure trivial
  | range first last =>
    exact (bound List.mem_cons_self).bind fun _ _ =>
      (bound (List.mem_cons_of_mem _ List.mem_cons_self)).bind fun _ _ => stays_pure trivial

variable {r : Reference}

/-- A loop variable stands for its number, which may be shown in hexadecimal digits. -/
theorem yields_viewed_loop (h : (v.context s).isLoop r.name = true) (n : Int64) :
    (viewed r.trait (.integer n)).Yields
      (fun w => ∀ t, (v.context s).referenceType r = .ok t → w.type = t)
      (LookFault (v.context s) r) := by
  have hloop {t : ValueType} (ht : (v.context s).referenceType r = .ok t) :
      r.trait = none ∧ t = .integer ∨ r.trait = some .hex ∧ t = .string := by
    have := (Context.referenceType_ok.mp ht).2
    rw [if_pos h] at this
    exact Context.loopType_ok this
  unfold viewed
  cases hr : r.trait with
  | none =>
    intro t ht
    rcases hloop ht with ⟨-, rfl⟩ | ⟨hhex, -⟩
    · rfl
    · cases hr.symm.trans hhex
  | some view =>
    refine (view.yields_apply (.integer n)).imp (fun w hw t ht => ?_) fun f hf =>
      .untyped (.inr (.inr hf.1)) fun t ht => ?_
    · rcases hloop ht with ⟨hnone, -⟩ | ⟨hhex, rfl⟩
      · cases hr.symm.trans hnone
      · cases hr.symm.trans hhex
        exact (Except.ok.inj hw).symm
    · rcases hloop ht with ⟨hnone, -⟩ | ⟨hhex, -⟩
      · cases hr.symm.trans hnone
      · cases hr.symm.trans hhex
        rcases hf.2 with hf | hf | hf | hf
        · cases hf
        · cases hf
        · cases hf
        · exact hf .string rfl

section Variables

variable (hl : (v.context s).isLoop r.name = false)

include hl

theorem referenceType_of_variable {t : ValueType} (h : (v.context s).referenceType r = .ok t) :
    ∃ declared, s.typeOf r.name v.owner = .ok declared ∧ r.resultType declared = .ok t := by
  have := (Context.referenceType_ok.mp h).2
  rwa [if_neg (by simp [hl])] at this

theorem lookFault_of_undefined {f : Fault}
    (h : f.kind = .undefined ∧ ∀ type, s.typeOf r.name v.owner ≠ .ok type) :
    LookFault (v.context s) r f :=
  .untyped (.inl h.1) fun _ ht => by
    obtain ⟨declared, hd, -⟩ := referenceType_of_variable hl ht
    exact h.2 declared hd

theorem stays_metadata {view : Trait} (hr : r.trait = some view) (hm : view.isMetadata = true) :
    Stays (fun m => s.Fits m.store) (v.metadata r.name view)
      (fun w => ∀ t, (v.context s).referenceType r = .ok t → w.type = t)
      (LookFault (v.context s) r) := by
  refine stays_get_bind fun m hfits => Stays.bind (Q := fun _ => True)
    (stays_lift ((hfits.yields_found r.name v.owner).imp (fun _ _ => trivial) fun f hf => ?_))
    fun found _ => ?_
  · rcases hf with ⟨hf, hreserved | htype⟩
    · exact .unstamped hf hr hm hreserved
    · exact lookFault_of_undefined hl ⟨hf, htype⟩
  · have typed {t : ValueType} (ht : (v.context s).referenceType r = .ok t) :
        ∃ declared, view.resultType declared = .ok t := by
      obtain ⟨declared, -, hresult⟩ := referenceType_of_variable hl ht
      rcases Reference.resultType_ok.mp hresult with ⟨view', hr', -, hv⟩ | ⟨hother, -⟩
      · cases hr.symm.trans hr'
        exact ⟨declared, hv⟩
      · cases hm.symm.trans (hother view hr).1
    cases view <;> cases hm <;> cases found.written <;> refine stays_pure fun t ht => ?_
    all_goals
      obtain ⟨declared, hv⟩ := typed ht
      cases declared <;> exact Except.ok.inj hv

/-- A date trait looks at the day of the clock, whatever the index. -/
theorem yields_date {view : Trait} (hr : r.trait = some view) (hm : ¬view.isMetadata = true)
    (hd : view.isDate = true) (day : Day) :
    (day.view view).Yields (fun w => ∀ t, (v.context s).referenceType r = .ok t → w.type = t)
      (LookFault (v.context s) r) := by
  refine (day.yields_view view).imp (fun w hw t ht => ?_) fun f hf => by cases hd.symm.trans hf.2
  obtain ⟨declared, hdeclared, hresult⟩ := referenceType_of_variable hl ht
  rcases Reference.resultType_ok.mp hresult with ⟨other, hother, hm', -⟩ | ⟨hdate, picked, hp, hv⟩
  · cases hr.symm.trans hother
    exact absurd hm' hm
  · rw [(hdate view hr).2 hd] at hdeclared
    obtain rfl : ValueType.string = declared := Except.ok.inj hdeclared
    obtain rfl := Option.some.inj (r.pickedType?_string.symm.trans hp)
    rw [hr] at hv
    exact Except.ok.inj (hw.symm.trans hv)

theorem stays_filtered (hr : r.trait = some .filter) :
    Stays (fun m => s.Fits m.store) (v.filtered r.name)
      (fun w => ∀ t, (v.context s).referenceType r = .ok t → w.type = t)
      (LookFault (v.context s) r) := by
  -- a filter keeps the type of an array, and what is picked from an array to be filtered is one too
  have typed {t type : ValueType} (ht : (v.context s).referenceType r = .ok t)
      (htype : s.typeOf r.name v.owner = .ok type) : type = t := by
    obtain ⟨declared, hd, hresult⟩ := referenceType_of_variable hl ht
    obtain rfl := Except.ok.inj (htype.symm.trans hd)
    rcases Reference.resultType_ok.mp hresult with ⟨view, hr', hm, -⟩ | ⟨-, picked, hp, hv⟩
    · cases hr.symm.trans hr'
      cases hm
    · rw [hr] at hv
      unfold Reference.pickedType? at hp
      split at hp
      · obtain rfl := Option.some.inj hp
        cases type <;> first | exact Except.ok.inj hv | cases hv
      · rename_i i _
        cases i <;> cases type <;> cases hp <;> first | exact Except.ok.inj hv | cases hv
  refine stays_ite (fun hreserved => ?_) fun hreserved => ?_
  · exact (stays_read r.name).imp (fun w hw t ht => typed ht hw) fun f hf =>
      lookFault_of_undefined hl hf
  · refine stays_get_bind fun m hfits => Stays.bind (Q := fun found =>
        s.typeOf r.name v.owner = .ok found.filtered.type)
      (stays_lift ((hfits.yields_found r.name v.owner).imp (fun _ hfound => hfound hreserved)
        fun f hf => lookFault_of_undefined hl ⟨hf.1, hf.2.resolve_left hreserved⟩))
      fun found hfound => stays_pure fun t ht => typed ht hfound

/-- A typed reference picks from the type of its variable and views what it picked. -/
theorem exists_pickedType (hplain : ∀ view, r.trait = some view → view.isMetadata = false ∧
      view.isDate = false ∧ view ≠ .filter) {t type : ValueType}
    (ht : (v.context s).referenceType r = .ok t) (htype : s.typeOf r.name v.owner = .ok type) :
    ∃ picked, r.pickedType? type = some picked ∧ Reference.viewedType r.trait picked = .ok t := by
  obtain ⟨declared, hd, hresult⟩ := referenceType_of_variable hl ht
  obtain rfl := Except.ok.inj (htype.symm.trans hd)
  rcases Reference.resultType_ok.mp hresult with ⟨view, hr, hm, -⟩ | ⟨-, h⟩
  · cases hm.symm.trans (hplain view hr).1
  · exact h

/-- What a trait views of a picked value. -/
theorem stays_viewed (hplain : ∀ view, r.trait = some view → view.isMetadata = false ∧
      view.isDate = false ∧ view ≠ .filter) {type : ValueType} {w : Value}
    (htype : s.typeOf r.name v.owner = .ok type) (hw : r.pickedType? type = some w.type) :
    Stays (fun m => s.Fits m.store) (liftM (viewed r.trait w) : MemoryM Value)
      (fun w => ∀ t, (v.context s).referenceType r = .ok t → w.type = t)
      (LookFault (v.context s) r) := by
  have viewedType {t : ValueType} (ht : (v.context s).referenceType r = .ok t) :
      Reference.viewedType r.trait w.type = .ok t := by
    obtain ⟨picked, hp, hv⟩ := exists_pickedType hl hplain ht htype
    obtain rfl := Option.some.inj (hw.symm.trans hp)
    exact hv
  refine stays_lift ?_
  unfold viewed
  split
  · rename_i hr
    intro t ht
    have hv := viewedType ht
    rw [hr] at hv
    exact Except.ok.inj hv
  · rename_i view hr
    refine (view.yields_apply w).imp (fun u hu t ht => ?_) fun f hf =>
      .untyped (.inr (.inr hf.1)) fun t ht => ?_
    · have hv := viewedType ht
      rw [hr] at hv
      exact Except.ok.inj (hu.symm.trans hv)
    · have hv := viewedType ht
      rw [hr] at hv
      obtain ⟨hm, hd, hne⟩ := hplain view hr
      rcases hf.2 with hf | hf | hf | hf
      · exact hne hf
      · cases hd.symm.trans hf
      · cases hm.symm.trans hf
      · exact hf t hv

/-- What an index picks and a trait views of a value that has the type of the variable. -/
theorem stays_lookPlain (hplain : ∀ view, r.trait = some view → view.isMetadata = false ∧
      view.isDate = false ∧ view ≠ .filter) :
    Stays (fun m => s.Fits m.store) (v.lookPlain r)
      (fun w => ∀ t, (v.context s).referenceType r = .ok t → w.type = t)
      (LookFault (v.context s) r) := by
  refine Stays.bind ((stays_read r.name).imp (fun _ => id) fun f hf => lookFault_of_undefined hl hf)
    fun value hvalue => ?_
  dsimp only
  split
  · rename_i hnone
    exact stays_viewed hl hplain hvalue (by rw [Reference.pickedType?, hnone])
  · rename_i index hindex
    have hpicked := Reference.pickedType?_of_index hindex value.type
    have hbounds : Stays (fun m => s.Fits m.store) (v.positions index) (fun _ => True)
        (LookFault (v.context s) r) := by
      refine (stays_positions index).imp (fun _ => id) fun f hf => ?_
      obtain ⟨name, hname, hf⟩ := hf
      exact hf.lookFault (Reference.mem_indexNames hindex hname)
    refine hbounds.bind fun range _ => ?_
    obtain ⟨first, last⟩ := range
    · have pick : Stays (fun m => s.Fits m.store)
          (do
            let w ← liftM (value.picked index first last)
            liftM (viewed r.trait w) : MemoryM Value)
          (fun w => ∀ t, (v.context s).referenceType r = .ok t → w.type = t)
          (LookFault (v.context s) r) := by
        refine Stays.bind (stays_lift ((value.yields_picked index first last).imp (fun _ => id)
          fun f hf => ?_)) fun w hw =>
            stays_viewed hl hplain hvalue (hpicked.trans hw)
        rcases hf with hf | ⟨hf, hnone⟩
        · exact .position hf
        · refine .untyped (.inr (.inl hf)) fun t ht => ?_
          obtain ⟨picked, hp, -⟩ := exists_pickedType hl hplain ht hvalue
          cases hp.symm.trans (hpicked.trans hnone)
      cases index with
      | single b => exact pick
      | range b b' => exact pick

end Variables

/-- A value that is looked up has the type of the reference, if the reference has one. -/
theorem stays_look (r : Reference) :
    Stays (fun m => s.Fits m.store) (v.look r)
      (fun w => ∀ t, (v.context s).referenceType r = .ok t → w.type = t)
      (LookFault (v.context s) r) := by
  unfold look
  split
  · rename_i n hn
    refine stays_lift (yields_viewed_loop ?_ n)
    rw [isLoop_context, hn]
    rfl
  · rename_i hnone
    have hl := isLoop_of_none (s := s) hnone
    split
    · rename_i hr
      exact stays_lookPlain hl fun view hview => by cases hr.symm.trans hview
    · rename_i view hr
      refine stays_ite (fun hm => stays_metadata hl hr hm) fun hm =>
        stays_ite (fun hd => ?_) fun hd =>
        stays_ite (fun hf => stays_filtered hl (hf ▸ hr)) fun hf =>
        stays_lookPlain hl fun _ hview => ?_
      · exact stays_get_bind fun m _ => stays_lift (yields_date hl hr hm hd m.clock.day)
      · obtain rfl := Option.some.inj (hr.symm.trans hview)
        exact ⟨Bool.eq_false_iff.mpr hm, Bool.eq_false_iff.mpr hd, hf⟩

end Viewpoint

end CommandScript
