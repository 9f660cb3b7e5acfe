import CommandScript.Proofs.Engine.Data
import CommandScript.Proofs.Evaluation
import CommandScript.Proofs.Store.Timeless

/-!
# Looking up in memories alike

Two memories are alike if their stores differ in the moments of writes at most. Looking up a
reference comes to the same in both, unless it shows the clock and the clocks differ. The logs do
not matter.
-/

namespace CommandScript

/-- The reference shows the clock, or the moment of a write. -/
def Reference.showsClock (r : Reference) : Bool :=
  (r.name :: r.indexNames).any Store.showsClock || r.trait.any fun t => t.isDate || t = .writeTime

namespace Reference

variable {r : Reference}

theorem showsClock_name (h : r.showsClock = false) : Store.showsClock r.name = false := by
  simp only [showsClock, Bool.or_eq_false_iff, List.any_cons] at h
  exact h.1.1

theorem showsClock_index (h : r.showsClock = false) {index : Index} (hi : r.index = some index)
    {name : String} (hb : .named name ∈ index.bounds) : Store.showsClock name = false := by
  simp only [showsClock, Bool.or_eq_false_iff, List.any_cons, List.any_eq_false] at h
  have hmem : name ∈ r.indexNames := by
    unfold indexNames
    rw [hi]
    exact List.mem_filterMap.mpr ⟨_, hb, rfl⟩
  exact Bool.eq_false_iff.mpr (h.1.2 name hmem)

theorem showsClock_trait (h : r.showsClock = false) {t : Trait} (ht : r.trait = some t) :
    t.isDate = false ∧ t ≠ .writeTime := by
  simp only [showsClock, ht, Bool.or_eq_false_iff, Option.any_some, decide_eq_false_iff_not] at h
  exact h.2

end Reference

/-- The memories hold the variables of `base`, and the stores are alike; where `same` holds, stores
and clocks are the same. Both draw their random numbers from one source. -/
structure Memory.Alike (same : Prop) (base : Store) (m n : Memory) : Prop where
  store : m.store.Alike same n.store
  fits : base.Fits m.store
  clock : same → m.clock = n.clock
  draw : m.draw = n.draw

variable {same : Prop} {base : Store} {α : Type}

theorem Memory.Alike.sources {m n : Memory} (h : m.Alike same base n) (hsame : same) :
    m.sources = n.sources := by
  rw [Memory.sources, Memory.sources, h.clock hsame, h.draw]

/-- A relation between memories alike that outlasts what is done to both of them: a change of the
stores that leaves them alike, and a message. -/
class Memory.Likeness (same : outParam Prop) (base : outParam Store)
    (M : Memory → Memory → Prop) : Prop where
  alike {m n : Memory} : M m n → m.Alike same base n
  withStore {m n : Memory} {s t : Store} : M m n → s.Alike same t → base.Fits s →
    M { m with store := s } { n with store := t }
  report {m n : Memory} (c : Category) (message : String) :
    M m n → M (m.report c message) (n.report c message)

instance : Memory.Likeness same base (Memory.Alike same base) where
  alike h := h
  withStore h hst hs := ⟨hst, hs, h.clock, h.draw⟩
  report _ _ h := ⟨h.store, h.fits, h.clock, h.draw⟩

variable {M : Memory → Memory → Prop}

namespace Viewpoint

variable (v : Viewpoint)

/-- From related memories the look-up comes to the same and leaves related memories. -/
abbrev Couple (M : Memory → Memory → Prop) (x : MemoryM α) : Prop :=
  Couples M x x

/-! Apart from the variables that it reads, a look-up does not depend on the memory. -/

theorem couples_position_of_read {b : Bound}
    (h : ∀ name, b = .named name → Couple M (v.read name)) : Couple M (v.position b) := by
  cases b with
  | position n => exact couples_pure
  | named name =>
    have place (n : Int64) : Couple M
        (if n.toInt < 0 then throw (.cause .runtime s!"index {n} is negative") >>= fun _ : Unit =>
          pure n.toInt.toNat else pure n.toInt.toNat : MemoryM Nat) :=
      couples_ite (fun _ => couples_throw_bind) fun _ => couples_pure
    unfold position
    dsimp only
    split
    · exact place _
    · exact (h name rfl).bind fun w => couples_lift.bind fun n => place n

theorem couples_positions_of_read {i : Index}
    (h : ∀ name, .named name ∈ i.bounds → Couple M (v.read name)) : Couple M (v.positions i) := by
  have bound {b : Bound} (hb : b ∈ i.bounds) : Couple M (v.position b) :=
    v.couples_position_of_read fun name hname => h name (hname ▸ hb)
  cases i with
  | single b => exact (bound List.mem_cons_self).bind fun _ => couples_pure
  | range first last =>
    exact (bound List.mem_cons_self).bind fun _ =>
      (bound (List.mem_cons_of_mem _ List.mem_cons_self)).bind fun _ => couples_pure

theorem couples_lookPlain_of_read {r : Reference} (hname : Couple M (v.read r.name))
    (hindex : ∀ index, r.index = some index → ∀ name, .named name ∈ index.bounds →
      Couple M (v.read name)) : Couple M (v.lookPlain r) := by
  refine Couples.bind hname fun w => ?_
  dsimp only
  split
  · exact couples_lift
  · rename_i index hi
    refine (v.couples_positions_of_read (hindex index hi)).bind fun ⟨first, last⟩ => ?_
    split
    · exact couples_lift.bind fun _ => couples_lift
    · exact couples_lift.bind fun _ => couples_lift

/-- The ways of looking up, each for the traits that take it. -/
theorem couples_look_of {r : Reference} (hplain : Couple M (v.lookPlain r))
    (hmetadata : ∀ t, r.trait = some t → t.isMetadata = true → Couple M (v.metadata r.name t))
    (hdate : ∀ t, r.trait = some t → t.isDate = true → ∀ m n, M m n → m.clock = n.clock)
    (hfiltered : Couple M (v.filtered r.name)) : Couple M (v.look r) := by
  unfold look
  split
  · exact couples_lift
  · split
    · exact hplain
    · rename_i t ht
      refine couples_ite (fun hm => hmetadata t ht hm) fun _ => couples_ite (fun hd => ?_) fun _ =>
        couples_ite (fun _ => hfiltered) fun _ => hplain
      refine couples_get_bind fun m n hmn => ?_
      rw [hdate t ht hd m n hmn]
      exact couples_lift

end Viewpoint

variable [like : Memory.Likeness same base M]

include like

theorem Memory.both_read {m n : Memory} (h : M m n) {name : String} (owner : String)
    (hname : same ∨ Store.showsClock name = false) :
    Checked.Both (fun a b => a.1 = b.1 ∧ M a.2 b.2) (m.read name owner) (n.read name owner) := by
  have halike : m.Alike same base n := Likeness.alike h
  have hdraw : m.sources.draw = n.sources.draw := halike.draw
  have hread := halike.store.both_read owner hdraw hname halike.sources
  have hfits := halike.fits.yields_read name owner m.sources
  rw [read_eq, read_eq]
  rcases hm : m.store.read m.sources name owner with f | ⟨reading, s⟩ <;>
    rcases hn : n.store.read n.sources name owner with g | ⟨reading', t⟩ <;>
    rw [hm, hn] at hread
  · exact hread
  · exact hread.elim
  · exact hread.elim
  · rw [hm] at hfits
    obtain ⟨rfl, hst⟩ : reading = reading' ∧ s.Alike same t := hread
    have hbehind : M { m with store := s } { n with store := t } :=
      Likeness.withStore h hst hfits.2
    rcases reading with ⟨value, none | warning⟩
    · exact ⟨rfl, hbehind⟩
    · exact ⟨rfl, Likeness.report _ _ hbehind⟩

namespace Viewpoint

variable (v : Viewpoint)

theorem couples_read {name : String} (h : same ∨ Store.showsClock name = false) :
    Couple M (v.read name) :=
  couples_atomic (x := MemoryM.read name v.owner) (y := MemoryM.read name v.owner)
    fun _ _ hmn => Memory.both_read hmn _ h

theorem couples_position {b : Bound}
    (h : ∀ name, b = .named name → same ∨ Store.showsClock name = false) :
    Couple M (v.position b) :=
  v.couples_position_of_read fun name hname => v.couples_read (h name hname)

theorem couples_positions {i : Index}
    (h : ∀ name, .named name ∈ i.bounds → same ∨ Store.showsClock name = false) :
    Couple M (v.positions i) :=
  v.couples_positions_of_read fun name hname => v.couples_read (h name hname)

theorem couples_lookPlain {r : Reference} (h : same ∨ r.showsClock = false) :
    Couple M (v.lookPlain r) :=
  v.couples_lookPlain_of_read (v.couples_read (h.imp_right Reference.showsClock_name))
    fun _ hi _ hname => v.couples_read (h.imp_right (Reference.showsClock_index · hi hname))

/-- Who wrote a variable is the same in memories alike; when is not. -/
theorem couples_metadata {name : String} {t : Trait} (hm : t.isMetadata = true)
    (h : same ∨ t ≠ .writeTime) : Couple M (v.metadata name t) := by
  refine couples_get_bind fun m n hmn =>
    couples_both_bind ((Memory.Likeness.alike hmn).store.both_get name v.owner) ?_
  rintro found found' ⟨htime, hsame⟩
  rcases h with hyes | hne
  · rw [hsame hyes]
    split <;> exact couples_pure
  · have ht : t = .writer := by cases t <;> first | rfl | exact absurd rfl hne | cases hm
    subst ht
    have hwritten : found.written.map Stamp.line = found'.written.map Stamp.line := by
      have h := congrArg (fun u : Variable => u.written.map Stamp.line) htime
      simpa [Variable.timeless, Stamp.timeless, Function.comp_def] using h
    cases hw : found.written <;> cases hw' : found'.written <;> rw [hw, hw'] at hwritten
    · exact couples_pure
    · cases hwritten
    · cases hwritten
    · obtain hline := Option.some.inj hwritten
      dsimp only
      rw [hline]
      exact couples_pure

theorem couples_filtered {name : String} (h : same ∨ Store.showsClock name = false) :
    Couple M (v.filtered name) := by
  refine couples_ite (fun _ => v.couples_read h) fun _ => couples_get_bind fun m n hmn => ?_
  refine couples_both_bind ((Memory.Likeness.alike hmn).store.both_get name v.owner)
    fun found found' hfound => ?_
  rw [← found.filtered_timeless, hfound.1, found'.filtered_timeless]
  exact couples_pure

theorem couples_look {r : Reference} (h : same ∨ r.showsClock = false) :
    Couple M (v.look r) := by
  refine v.couples_look_of (v.couples_lookPlain h)
    (fun t ht hm => v.couples_metadata hm (h.imp_right (Reference.showsClock_trait · ht |>.2)))
    (fun t ht hd m n hmn => ?_) (v.couples_filtered (h.imp_right Reference.showsClock_name))
  rcases h with hyes | h
  · exact (Memory.Likeness.alike hmn).clock hyes
  · rw [(Reference.showsClock_trait h ht).1] at hd
    cases hd

end Viewpoint

end CommandScript
