import CommandScript.Proofs.Engine.Effect
import CommandScript.Proofs.Engine.Typed

/-!
# What a command looks up

A command that steers looks up its chain or its loop in the tables, the flag of the chain, and its
loop among those in progress. A flow supplies a command (`Flow.Supplied`) if all of this is there.
`ensures_execute` says of every command that it keeps the data of the engine, and that a supplied one
has no fault which says that bookkeeping is missing; `Failure` lists what its faults leave behind.
-/

namespace CommandScript.Engine

/-- What the command looks up is there. -/
structure Flow.Supplied (f : Flow) (entry : Entry) : Prop where
  chain : (∃ c, entry.command = .if_ c) ∨ entry.marks = true ∨ entry.command = .endIf →
    ∃ chain, f.program.chains.chainOf entry.index = .ok chain
  following {chain} : (∃ c, entry.command = .if_ c) ∨ entry.marks = true →
    f.program.chains.chainOf entry.index = .ok chain → ∃ j, chain.following entry.index = .ok j
  ending {chain} : entry.marks = true → f.program.chains.chainOf entry.index = .ok chain →
    ∃ j, chain.ending = .ok j
  taken {chain} : entry.marks = true → f.program.chains.chainOf entry.index = .ok chain →
    ∃ b, f.taken.get? (f.depth, chain.ifIndex) = some b
  loop {id} : entry.command = .for_ id ∨ goesOnWith? entry.command = some id ∨
    leaves? entry.command = some id → ∃ loop, f.program.loops.loop id = .ok loop
  leaving {id loop} : entry.command = .for_ id ∨ goesOnWith? entry.command = some id ∨
    leaves? entry.command = some id → f.program.loops.loop id = .ok loop →
    ∃ j, loop.exitIndex = .ok j
  run {id} : goesOnWith? entry.command = some id ∨ leaves? entry.command = some id →
    ∃ l ∈ f.loops, isRun f.depth id l = true

/-- What a fault of a command leaves of the flow: all of it, or a loop that was just begun or moved
on, or dropped in order to be begun anew. -/
inductive Failure (f : Flow) (entry : Entry) : Flow → Prop where
  | same : Failure f entry f
  | dropped {id} : entry.command = .for_ id →
      Failure f entry { f with loops := f.loops.filter fun l => !isRun f.depth id l }
  | begun {id v} : entry.command = .for_ id →
      Failure f entry
        { f with loops := ⟨f.depth, id, v⟩ :: f.loops.filter fun l => !isRun f.depth id l }
  | again {id after run before v} : goesOnWith? entry.command = some id →
      f.Runs id after run before →
      Failure f entry { f with loops := after ++ { run with value := v } :: before }

/-- How a command that began at the flow fails. -/
def Failed (f : Flow) (s : Store) (scan : String → Checked String) (entry : Entry) (g : Fault)
    (e : Engine) : Prop :=
  e.Holds s scan ∧ (f.Supplied entry → (¬g.SaysMissing ∨ ScanFault scan g) ∧ Failure f entry e.flow)

variable {f f' : Flow} {s : Store} {scan : String → Checked String} {entry : Entry} {id : LoopId}

section Parts

variable {α β : Type} {Q : α → Prop} {p : Prop} {k : α → EngineM β} {R : β → Engine → Prop}

theorem At.failed {e : Engine} {g : Fault} (h : At f' s scan e) (hf : Failure f entry f')
    (hg : g.Allowed p) : Failed f s scan entry g e :=
  ⟨h.2, fun _ => ⟨.inl hg.1, h.1 ▸ hf⟩⟩

/-- A part that stays at a flow which may be left behind. -/
theorem ensures_stays_bind {x : EngineM α} (hx : Stays (At f' s scan) x Q (Fault.Allowed p))
    (hf : Failure f entry f') (hk : ∀ a, Ensures (At f' s scan) (k a) R (Failed f s scan entry)) :
    Ensures (At f' s scan) (x >>= k) R (Failed f s scan entry) :=
  Ensures.bind (Q := fun _ => At f' s scan) (Ensures.imp hx (fun _ => id) (fun _ _ h => h.1)
    fun _ _ h => h.1.failed hf h.2) hk

/-- A look-up of what a supplied command finds. -/
theorem ensures_found_bind {x : Checked α} (hx : f.Supplied entry → ∃ a, x = .ok a)
    (hk : ∀ a, x = .ok a → Ensures (At f' s scan) (k a) R (Failed f s scan entry)) :
    Ensures (At f' s scan) ((liftM x : EngineM α) >>= k) R (Failed f s scan entry) := by
  have found : Ensures (At f' s scan) (liftM x : EngineM α) (fun a e => At f' s scan e ∧ x = .ok a)
      (Failed f s scan entry) :=
    ensures_lift (Checked.yields_of (fun _ => id) fun g hg => hg) (fun _ _ he ha => ⟨he, ha⟩)
      fun g e he hg => ⟨he.2, fun h => by
        obtain ⟨a, ha⟩ := hx h
        cases ha.symm.trans hg⟩
  exact found.bind fun a => ensures_of_and fun ha => hk a ha

theorem ensures_next {m : Move} {E : Fault → Engine → Prop} :
    Ensures (At f' s scan) (pure m : EngineM Move) (fun _ e => e.Holds s scan) E :=
  ensures_pure fun _ h => h.2

end Parts

/-! ### Chains -/

theorem ensures_setTaken (i : Nat) (b : Bool) {E : Fault → Engine → Prop} :
    Ensures (At f s scan) (setTaken i b)
      (fun _ => At { f with taken := f.taken.put (f.depth, i) b } s scan) E :=
  ensures_modify fun e he => by
    obtain ⟨rfl, h⟩ := he
    exact ⟨rfl, h.memory, h.initial, h.scan⟩

theorem ensures_isTaken {i : Nat} (h : f.Supplied entry → ∃ b, f.taken.get? (f.depth, i) = some b) :
    Ensures (At f s scan) (isTaken i) (fun _ => At f s scan) (Failed f s scan entry) := by
  refine ensures_read_bind fun e he => ?_
  split
  · exact ensures_pure fun _ => id
  · rename_i hnone
    refine ensures_throw fun e' he' => ⟨he'.2, fun hs => ?_⟩
    obtain ⟨b, hb⟩ := h hs
    have hnone : e.flow.taken.get? (e.flow.depth, i) = none := hnone
    rw [he.1, hb] at hnone
    cases hnone

theorem ensures_executeIf {c : Condition} (hc : entry.command = .if_ c) :
    Ensures (At f s scan) (executeIf entry.index c) (fun _ e => e.Holds s scan)
      (Failed f s scan entry) := by
  refine ensures_stays_bind (stays_truth c) .same fun b =>
    Ensures.bind (ensures_setTaken entry.index b) fun _ => ensures_ite (fun _ => ensures_next)
      fun _ => ensures_read_bind fun e he => ?_
  have hprogram : e.program = f.program := congrArg Flow.program he.1
  rw [hprogram]
  exact ensures_found_bind (fun h => h.chain (.inl ⟨c, hc⟩)) fun chain hchain =>
    ensures_found_bind (fun h => h.following (.inl ⟨c, hc⟩) hchain) fun _ _ => ensures_next

theorem ensures_executeBranch {c : Option Condition} (hm : entry.marks = true) :
    Ensures (At f s scan) (executeBranch entry.index c) (fun _ e => e.Holds s scan)
      (Failed f s scan entry) := by
  refine ensures_read_bind fun e he => ?_
  have hprogram : e.program = f.program := congrArg Flow.program he.1
  rw [hprogram]
  refine ensures_found_bind (fun h => h.chain (.inr (.inl hm))) fun chain hchain =>
    ensures_found_bind (fun h => h.ending hm hchain) fun ending _ =>
    ensures_found_bind (fun h => h.following (.inr hm) hchain) fun following _ =>
    Ensures.bind (ensures_isTaken fun h => h.taken hm hchain) fun taken =>
    ensures_ite (fun _ => ensures_next) fun _ => ?_
  have rest (holds : Bool) : Ensures (At f s scan) (if (!holds) = true then pure (.jump following)
      else do
        setTaken chain.ifIndex true
        pure .next : EngineM Move) (fun _ e => e.Holds s scan) (Failed f s scan entry) :=
    ensures_ite (fun _ => ensures_next) fun _ =>
      Ensures.bind (ensures_setTaken chain.ifIndex true) fun _ => ensures_next
  cases c with
  | none => exact rest true
  | some c => exact ensures_stays_bind (stays_truth c) .same rest

theorem ensures_executeEndIf (hc : entry.command = .endIf) :
    Ensures (At f s scan) (executeEndIf entry.index) (fun _ e => e.Holds s scan)
      (Failed f s scan entry) := by
  refine ensures_read_bind fun e he => ?_
  have hprogram : e.program = f.program := congrArg Flow.program he.1
  rw [hprogram]
  refine ensures_found_bind (fun h => h.chain (.inr (.inr hc))) fun chain _ =>
    Ensures.bind (Q := fun _ e => e.Holds s scan) (ensures_set fun _ _ => ?_) fun _ =>
      ensures_pure fun _ => id
  exact ⟨he.2.memory, he.2.initial, he.2.scan⟩

/-! ### Loops -/

theorem ensures_withLoops {g : List ActiveLoop → List ActiveLoop} {E : Fault → Engine → Prop} :
    Ensures (At f s scan) (modify fun e => { e with loops := g e.loops } : EngineM PUnit)
      (fun _ => At { f with loops := g f.loops } s scan) E :=
  ensures_modify fun e he => by
    obtain ⟨rfl, h⟩ := he
    exact ⟨rfl, h.memory, h.initial, h.scan⟩

theorem ensures_beginLoop (hc : entry.command = .for_ id) :
    Ensures (At f s scan) (beginLoop id) (fun _ e => e.Holds s scan)
      (Failed f s scan entry) := by
  refine ensures_read_bind fun e he => ?_
  have hprogram : e.program = f.program := congrArg Flow.program he.1
  have hdepth : e.depth = f.depth := congrArg Flow.depth he.1
  dsimp only
  rw [hprogram, hdepth]
  exact ensures_found_bind (fun h => h.loop (.inl hc)) fun loop hloop =>
    Ensures.bind (ensures_withLoops (g := List.filter fun l => !isRun f.depth id l)) fun _ =>
    ensures_stays_bind (stays_number loop.start) (.dropped hc) fun start =>
    Ensures.bind (ensures_withLoops (g := (⟨f.depth, id, start⟩ :: ·))) fun _ =>
    ensures_stays_bind (stays_number loop.stop) (.begun hc) fun stop =>
    ensures_ite (fun _ => ensures_next) fun _ =>
    Ensures.bind (ensures_withLoops (g := List.tail)) fun _ =>
    ensures_found_bind (fun h => h.leaving (.inl hc) hloop) fun _ _ => ensures_next

theorem ensures_findRun
    (hc : goesOnWith? entry.command = some id ∨ leaves? entry.command = some id) :
    Ensures (At f s scan) (findRun id)
      (fun r e => At f s scan e ∧ f.Runs id r.1 r.2.1 r.2.2) (Failed f s scan entry) := by
  intro e he
  rcases hr : (findRun id).run e with ⟨g | r, e'⟩
  · rw [findRun, run_bind, show (get : EngineM Engine).run e = (.ok e, e) from rfl] at hr
    dsimp only at hr
    split at hr
    · cases hr
    · rename_i hnil
      cases hr
      refine ⟨he.2, fun h => ?_⟩
      obtain ⟨l, hl, hrun⟩ := h.run hc
      rw [← he.1] at hl hrun
      have hall := List.all_takeWhile (p := fun l => !isRun e.depth id l) (l := e.loops)
      rw [← List.append_nil (e.loops.takeWhile _), ← hnil, List.takeWhile_append_dropWhile] at hall
      have hnot := List.all_eq_true.mp hall l hl
      rw [show isRun e.depth id l = true from hrun] at hnot
      cases hnot
  · obtain ⟨hruns, rfl⟩ := gives_findRun hr
    exact ⟨he, he.1 ▸ hruns⟩

theorem ensures_advanceLoop (hc : goesOnWith? entry.command = some id) :
    Ensures (At f s scan) (advanceLoop id) (fun _ e => e.Holds s scan)
      (Failed f s scan entry) := by
  refine Ensures.bind (ensures_findRun (.inl hc)) fun found => ensures_of_and fun hrun =>
    ensures_read_bind fun e he => ?_
  obtain ⟨after, run, before⟩ := found
  have hprogram : e.program = f.program := congrArg Flow.program he.1
  rw [hprogram]
  refine ensures_found_bind (fun h => h.loop (.inr (.inl hc))) fun loop hloop =>
    ensures_stays_bind (stays_number loop.step) .same fun step =>
    ensures_unless (ensures_throw fun e he => he.failed (p := True) .same
      (Fault.allowed_runtime (Bookkeeping.not_zeroStep id.name))) ?_
  split
  · exact ensures_throw fun e he => he.failed (p := True) .same Fault.allowed_range
  · rename_i v _
    exact Ensures.bind
      (ensures_withLoops (g := fun _ => after ++ { run with value := v } :: before)) fun _ =>
      ensures_stays_bind (stays_number loop.stop) (.again hc hrun) fun stop =>
      ensures_ite (fun _ => ensures_next) fun _ =>
      Ensures.bind (ensures_withLoops (g := fun _ => before)) fun _ =>
      ensures_found_bind (fun h => h.leaving (.inr (.inl hc)) hloop) fun _ _ => ensures_next

theorem ensures_leaveLoop (hc : leaves? entry.command = some id) :
    Ensures (At f s scan) (leaveLoop id) (fun _ e => e.Holds s scan)
      (Failed f s scan entry) := by
  refine Ensures.bind (ensures_findRun (.inr hc)) fun found => ensures_of_and fun _ =>
    Ensures.bind (ensures_withLoops (g := fun _ => found.2.2)) fun _ =>
    ensures_read_bind fun e he => ?_
  have hprogram : e.program = f.program := congrArg Flow.program he.1
  rw [hprogram]
  exact ensures_found_bind (fun h => h.loop (.inr (.inr hc))) fun loop hloop =>
    ensures_found_bind (fun h => h.leaving (.inr (.inr hc)) hloop) fun _ _ => ensures_next

/-! ### Subroutines -/

theorem ensures_call (index : Nat) (name : String) (target : Nat) {E : Fault → Engine → Prop} :
    Ensures (At f s scan) (call index name target) (fun _ e => e.Holds s scan) E :=
  Ensures.bind (Q := fun _ e => e.Holds s scan)
    (ensures_modify fun _ h => ⟨h.2.memory, h.2.initial, h.2.scan⟩) fun _ =>
    Ensures.bind (Q := fun _ e => e.Holds s scan)
      (ensures_modify fun _ h => ⟨h.memory, h.initial, h.scan⟩) fun _ => ensures_pure fun _ => id

theorem ensures_returnWith (v : Option String) :
    Ensures (At f s scan) (returnWith v) (fun _ e => e.Holds s scan)
      (Failed f s scan entry) := by
  refine ensures_read_bind fun e he => ?_
  split
  · exact ensures_throw fun e he => he.failed (p := True) .same
      (Fault.allowed_runtime (Bookkeeping.not_of_head (c := 'r') rfl rfl))
  · rename_i frame calls _
    refine Ensures.bind (Q := fun _ e => e.Holds s scan)
      (ensures_set fun _ _ => ⟨he.2.memory, he.2.initial, he.2.scan⟩) fun _ => ?_
    have rest : Ensures (fun e => e.Holds s scan) (do
        modify fun e =>
          e.report .program s!"return from {frame.subroutine} to command {frame.callIndex + 1}"
        return .jump (frame.callIndex + 1) : EngineM Move) (fun _ e => e.Holds s scan)
        (Failed f s scan entry) :=
      Ensures.bind (Q := fun _ e => e.Holds s scan)
        (ensures_modify fun _ h => ⟨h.memory, h.initial, h.scan⟩) fun _ => ensures_pure fun _ => id
    cases v with
    | none => exact rest
    | some v =>
      exact Ensures.bind (Q := fun _ e => e.Holds s scan)
        (ensures_modify fun _ h => ⟨h.memory.withCells _, h.initial, h.scan⟩) fun _ => rest

/-! ### All commands -/

theorem ensures_execute (f : Flow) (s : Store) (scan : String → Checked String) (entry : Entry) :
    Ensures (At f s scan) (execute entry) (fun _ e => e.Holds s scan)
      (Failed f s scan entry) := by
  cases hsteers : entry.command.steers with
  | false =>
    refine Ensures.imp (stays_execute hsteers) (fun _ => id) (fun _ _ h => h.1.2) fun g e h =>
      ⟨h.1.2, fun _ => ⟨h.2.imp And.left And.right, h.1.1 ▸ .same⟩⟩
  | true =>
    have marked {c : Option Condition} (hm : entry.marks = true) :
        Ensures (At f s scan) (executeBranch entry.index c) (fun _ e => e.Holds s scan)
          (Failed f s scan entry) := ensures_executeBranch hm
    unfold execute
    cases hc : entry.command <;> rw [hc] at hsteers <;>
      first | exact absurd hsteers Bool.false_ne_true | dsimp only
    case if_ c => exact ensures_executeIf hc
    case elseIf c => exact marked (by rw [Entry.marks, hc])
    case else_ => exact marked (by rw [Entry.marks, hc])
    case endIf => exact ensures_executeEndIf hc
    case for_ id => exact ensures_beginLoop hc
    case next id => exact ensures_advanceLoop (by rw [hc]; rfl)
    case skip id => exact ensures_advanceLoop (by rw [hc]; rfl)
    case endFor id => exact ensures_advanceLoop (by rw [hc]; rfl)
    case skipIf id c =>
      exact ensures_stays_bind (stays_truth c) .same fun b =>
        ensures_ite (fun _ => ensures_advanceLoop (by rw [hc]; rfl)) fun _ => ensures_next
    case break_ id => exact ensures_leaveLoop (by rw [hc]; rfl)
    case breakIf id c =>
      exact ensures_stays_bind (stays_truth c) .same fun b =>
        ensures_ite (fun _ => ensures_leaveLoop (by rw [hc]; rfl)) fun _ => ensures_next
    case sub name last => exact ensures_next
    case endSub => exact ensures_returnWith none
    case gosub name target => exact ensures_call _ name target
    case return_ a =>
      cases a with
      | none => exact ensures_returnWith none
      | some a =>
        exact ensures_stays_bind (stays_text a) .same fun v => ensures_returnWith (some v)
    case endMain => exact ensures_next
    case exit => exact ensures_next

end CommandScript.Engine
