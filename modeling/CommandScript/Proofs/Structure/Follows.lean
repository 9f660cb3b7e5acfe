import CommandScript.Proofs.Structure.Brackets
import CommandScript.Proofs.Structure.Commands

/-!
# Following a course

`Follows` says that a part of a tree and the engine do the same from one command to another: if the
part is gone through, the engine has come to the command behind it, and if it stops, the engine is
where that stop leads to. Meanwhile only chains inside the part are marked as taken or not.
-/

namespace CommandScript

open Engine

/-- Which branches were taken is the same but for the chains of this depth from `lo` up to `hi`, and
for those of inner calls. -/
structure Within (depth lo hi : Nat) (taken taken' : Assoc (Nat × Nat) Bool) : Prop where
  below : ∀ d i, d < depth → taken'.get? (d, i) = taken.get? (d, i)
  outside : ∀ i, i < lo ∨ hi ≤ i → taken'.get? (depth, i) = taken.get? (depth, i)

namespace Within

variable {depth lo hi lo' hi' i : Nat} {b : Bool} {taken taken' taken'' : Assoc (Nat × Nat) Bool}

theorem refl (depth lo hi : Nat) (taken : Assoc (Nat × Nat) Bool) : Within depth lo hi taken taken :=
  ⟨fun _ _ _ => rfl, fun _ _ => rfl⟩

theorem trans (h : Within depth lo hi taken taken') (h' : Within depth lo hi taken' taken'') :
    Within depth lo hi taken taken'' :=
  ⟨fun d i hd => (h'.below d i hd).trans (h.below d i hd),
    fun i hi => (h'.outside i hi).trans (h.outside i hi)⟩

theorem mono (h : Within depth lo' hi' taken taken') (hlo : lo ≤ lo') (hhi : hi' ≤ hi) :
    Within depth lo hi taken taken' :=
  ⟨h.below, fun i hi => h.outside i (by omega)⟩

theorem put (hlo : lo ≤ i) (hhi : i < hi) :
    Within depth lo hi taken (taken.put (depth, i) b) := by
  refine ⟨fun d k hd => ?_, fun k hk => ?_⟩
  · rw [Assoc.get?_put, if_neg]
    intro heq
    have := (Prod.mk.inj heq).1
    omega
  · rw [Assoc.get?_put, if_neg]
    intro heq
    have := (Prod.mk.inj heq).2
    omega

theorem erase (hlo : lo ≤ i) (hhi : i < hi) :
    Within depth lo hi taken (taken.erase (depth, i)) := by
  refine ⟨fun d k hd => ?_, fun k hk => ?_⟩
  · rw [Assoc.get?_erase, if_neg]
    intro heq
    have := (Prod.mk.inj heq).1
    omega
  · rw [Assoc.get?_erase, if_neg]
    intro heq
    have := (Prod.mk.inj heq).2
    omega

/-- What happened in a call is forgotten at its end. -/
theorem of_call (h : ∀ d i, d < depth + 1 → taken'.get? (d, i) = taken.get? (d, i)) :
    Within depth lo hi taken taken' :=
  ⟨fun d i hd => h d i (Nat.lt_succ_of_lt hd), fun i _ => h depth i (Nat.lt_succ_self _)⟩

end Within

namespace Place

/-- The flow of an engine at a place; the loops of outer calls are below those of the place. -/
def flow (place : Place) (p : Program) (below : List ActiveLoop)
    (taken : Assoc (Nat × Nat) Bool) (k : Nat) : Flow where
  program := p
  next := k
  calls := place.calls
  taken := taken
  loops := place.loops ++ below
  finished := false

/-- The loops in progress at the place are those that are open there. -/
structure Suits (place : Place) (ids : List LoopId) (below : List ActiveLoop) : Prop where
  loops : place.loops.map ActiveLoop.label = ids.map (place.depth, ·)
  below : ∀ l ∈ below, l.depth < place.depth

namespace Suits

variable {place : Place} {ids : List LoopId} {below : List ActiveLoop} {id : LoopId}

theorem shows (h : place.Suits ids below) (p : Program) (taken : Assoc (Nat × Nat) Bool) (k : Nat) :
    place.Shows (place.flow p below taken k) :=
  ⟨rfl, below, rfl, h.below⟩

theorem inside (h : place.Suits ids below) (id : LoopId) (v : Int64) :
    (place.inside id v).Suits (id :: ids) below :=
  ⟨congrArg ((place.depth, id) :: ·) h.loops, h.below⟩

theorem depth_eq (h : place.Suits ids below) {l : ActiveLoop} (hl : l ∈ place.loops) :
    l.depth = place.depth ∧ l.id ∈ ids := by
  have hmem := h.loops ▸ List.mem_map_of_mem (f := ActiveLoop.label) hl
  obtain ⟨id, hid, heq⟩ := List.mem_map.mp hmem
  obtain ⟨hdepth, hl⟩ := Prod.mk.inj heq
  exact ⟨hdepth.symm, hl ▸ hid⟩

theorem head (h : place.Suits ids below) (hid : ids.head? = some id) :
    ∃ v rest, place.loops = ⟨place.depth, id, v⟩ :: rest := by
  obtain ⟨others, rfl⟩ := List.head?_eq_some_iff.mp hid
  have hloops := h.loops
  cases hl : place.loops with
  | nil =>
    rw [hl] at hloops
    cases hloops
  | cons l rest =>
    rw [hl] at hloops
    obtain ⟨depth, other, v⟩ := l
    cases (List.cons.inj hloops).1
    exact ⟨v, rest, rfl⟩

theorem called (h : place.Suits ids below) (frame : Frame) :
    (place.called frame).Suits [] (place.loops ++ below) := by
  refine ⟨rfl, fun l hl => Nat.lt_succ_of_le ?_⟩
  rcases List.mem_append.mp hl with hl | hl
  · exact Nat.le_of_eq (h.depth_eq hl).1
  · exact Nat.le_of_lt (h.below l hl)

/-- A `FOR` finds its loop not in progress. -/
theorem filter_run (h : place.Suits ids below) (hid : id ∉ ids) :
    ((place.loops ++ below).filter fun l => !isRun place.depth id l) = place.loops ++ below := by
  refine List.filter_eq_self.mpr fun l hl => ?_
  rw [Bool.not_eq_true', Bool.eq_false_iff, Ne, isRun_iff]
  intro hlabel
  obtain ⟨hdepth, hl'⟩ := Prod.mk.inj hlabel
  rcases List.mem_append.mp hl with hl | hl
  · exact hid (hl' ▸ (h.depth_eq hl).2)
  · have := h.below l hl
    omega

/-- A call that ends drops its own loops. -/
theorem filter_depth (h : place.Suits ids below) :
    ((place.loops ++ below).filter fun l => l.depth != place.depth) = below := by
  have hinner : (place.loops.filter fun l => l.depth != place.depth) = [] := by
    refine List.filter_eq_nil_iff.mpr fun l hl => ?_
    simp [(h.depth_eq hl).1]
  have houter : (below.filter fun l => l.depth != place.depth) = below := by
    refine List.filter_eq_self.mpr fun l hl => ?_
    have := h.below l hl
    simp only [bne_iff_ne]
    omega
  rw [List.filter_append, hinner, houter, List.nil_append]

end Suits

end Place

section Follows

variable (p : Program) (c : Course) (place : Place) (below : List ActiveLoop) (lo hi : Nat)
  (taken : Assoc (Nat × Nat) Bool) (steps : Nat)

/-- A part was gone through, and the engine comes to the command at `hi`. -/
def Passes (r : Progress) : Prop :=
  ∃ taken', Within place.depth lo hi taken taken' ∧ r.steps ≤ steps ∧
    Arrives c r (place.flow p below taken' hi)

/-- Where the engine is when a part stops. -/
inductive Ends : Stop → Progress → Prop where
  | again {r entry l rest taken' k} : place.loops = l :: rest →
      Within place.depth lo hi taken taken' → r.steps < steps →
      Midway c r (place.flow p below taken' k) entry (advanceLoop l.id) → Ends (.again entry) r
  | left {r l rest loop taken' j} : place.loops = l :: rest →
      p.loops.loop l.id = .ok loop → loop.exitIndex = .ok j →
      Within place.depth lo hi taken taken' → r.steps ≤ steps →
      Arrives c r (({ place with loops := rest } : Place).flow p below taken' j) → Ends .left r
  | returned {r frame calls taken'} : place.calls = frame :: calls →
      (∀ d i, d < place.depth → taken'.get? (d, i) = taken.get? (d, i)) → r.steps ≤ steps →
      Arrives c r ⟨p, frame.callIndex + 1, calls, taken', below, false⟩ → Ends .returned r
  | finished {r} : c = ⟨r.events, none, r.world.data⟩ → Ends .finished r
  | failed {f r} : c = ⟨r.events, some f, r.world.data⟩ → Ends (.failed f) r
  | out {r} : c = ⟨r.events, none, r.world.data⟩ → Ends .out r

/-- The engine follows the execution of a part, which ends in front of the command at `hi`. -/
def Follows (x : Structured Unit) (r : Progress) : Prop :=
  Plays x r (fun _ => Passes p c place below lo hi taken r.steps)
    (Ends p c place below lo hi taken r.steps)

variable {p c place below lo hi taken steps} {lo' hi' steps' : Nat}
  {taken' : Assoc (Nat × Nat) Bool} {r : Progress} {s : Stop} {x y : Structured Unit}

theorem Ends.closes : c.Closes (Ends p c place below lo hi taken steps) :=
  ⟨fun _ => .out, fun _ => .finished, fun _ _ => .failed⟩

theorem Passes.mono (h : Passes p c place below lo' hi taken' steps' r)
    (ht : Within place.depth lo hi taken taken') (hlo : lo ≤ lo') (hsteps : steps' ≤ steps) :
    Passes p c place below lo hi taken steps r := by
  obtain ⟨taken'', hw, hr, ha⟩ := h
  exact ⟨taken'', ht.trans (hw.mono hlo (Nat.le_refl _)), Nat.le_trans hr hsteps, ha⟩

theorem Ends.mono (h : Ends p c place below lo' hi' taken' steps' s r)
    (ht : Within place.depth lo hi taken taken') (hlo : lo ≤ lo') (hhi : hi' ≤ hi)
    (hsteps : steps' ≤ steps) : Ends p c place below lo hi taken steps s r := by
  cases h with
  | again hl hw hr hm => exact .again hl (ht.trans (hw.mono hlo hhi)) (Nat.lt_of_lt_of_le hr hsteps) hm
  | left hl hloop hj hw hr ha =>
    exact .left hl hloop hj (ht.trans (hw.mono hlo hhi)) (Nat.le_trans hr hsteps) ha
  | returned hcalls hbelow hr ha =>
    exact .returned hcalls (fun d i hd => (hbelow d i hd).trans (ht.below d i hd))
      (Nat.le_trans hr hsteps) ha
  | finished hc => exact .finished hc
  | failed hc => exact .failed hc
  | out hc => exact .out hc

/-- A part that is followed from a later point on. -/
theorem Follows.mono {r' : Progress} (h : Follows p c place below lo' hi taken' x r')
    (ht : Within place.depth lo hi taken taken') (hlo : lo ≤ lo') (hsteps : r'.steps ≤ steps) :
    Plays x r' (fun _ => Passes p c place below lo hi taken steps)
      (Ends p c place below lo hi taken steps) :=
  Plays.mono h (fun _ _ hp => hp.mono ht hlo hsteps)
    fun _ _ he => he.mono ht hlo (Nat.le_refl _) hsteps

theorem Follows.seq {z : Nat} (hx : Follows p c place below lo z taken x r) (hz : z ≤ hi)
    (hlo : lo ≤ lo')
    (hy : ∀ taken' r', Within place.depth lo z taken taken' → r'.steps ≤ r.steps →
      Arrives c r' (place.flow p below taken' z) → Follows p c place below lo' hi taken' y r') :
    Follows p c place below lo hi taken (do x; y) r := by
  refine Plays.bind hx (fun _ r' hp => ?_) fun s r' he =>
    he.mono (.refl ..) (Nat.le_refl _) hz (Nat.le_refl _)
  obtain ⟨taken', hw, hr, ha⟩ := hp
  exact (hy taken' r' hw hr ha).mono (hw.mono (Nat.le_refl _) hz) hlo hr

theorem Arrives.follows_pure (h : Arrives c r (place.flow p below taken hi)) :
    Follows p c place below lo hi taken (pure ()) r :=
  ⟨taken, .refl .., Nat.le_refl _, h⟩

end Follows

end CommandScript
