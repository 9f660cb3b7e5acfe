import CommandScript.Proofs.Engine.Plain
import CommandScript.Proofs.Nesting.Places

/-!
# What a command does to the calls, chains and loops in progress

`Effect` lists, command by command, where the program goes on and what becomes of the calls, chains
and loops in progress. `effect_of_execute` says that a command that succeeds does nothing else to
them, so an invariant of runs goes by cases on `Effect`.
-/

namespace CommandScript.Engine

def Flow.depth (f : Flow) : Nat := f.calls.length

/-- The loop that a command goes on with: at its end, or before it. -/
def goesOnWith? : Command → Option LoopId
  | .next id | .skip id | .skipIf id _ | .endFor id => some id
  | _ => none

def leaves? : Command → Option LoopId
  | .break_ id | .breakIf id _ => some id
  | _ => none

/-- The innermost run of a loop at the depth of the flow, with what was begun after and before it. -/
structure Flow.Runs (f : Flow) (id : LoopId) (after : List ActiveLoop) (run : ActiveLoop)
    (before : List ActiveLoop) : Prop where
  loops : f.loops = after ++ run :: before
  after : ∀ l ∈ after, isRun f.depth id l = false
  run : isRun f.depth id run = true

/-- What a command that moves on may do to the flow. -/
inductive Effect (f : Flow) (entry : Entry) : Move → Flow → Prop where
  | plain : entry.command.steers = false → Effect f entry .next f
  | ifTrue {c} : entry.command = .if_ c →
      Effect f entry .next { f with taken := f.taken.put (f.depth, entry.index) true }
  | ifFalse {c chain j} : entry.command = .if_ c →
      f.program.chains.chainOf entry.index = .ok chain → chain.following entry.index = .ok j →
      Effect f entry (.jump j) { f with taken := f.taken.put (f.depth, entry.index) false }
  | branchPassed {chain j} : entry.marks = true →
      f.program.chains.chainOf entry.index = .ok chain → chain.ending = .ok j →
      f.taken.get? (f.depth, chain.ifIndex) = some true → Effect f entry (.jump j) f
  | branchFalse {c chain j} : entry.command = .elseIf c →
      f.program.chains.chainOf entry.index = .ok chain → chain.following entry.index = .ok j →
      f.taken.get? (f.depth, chain.ifIndex) = some false → Effect f entry (.jump j) f
  | branchTrue {chain} : entry.marks = true →
      f.program.chains.chainOf entry.index = .ok chain →
      f.taken.get? (f.depth, chain.ifIndex) = some false →
      Effect f entry .next { f with taken := f.taken.put (f.depth, chain.ifIndex) true }
  | endIf {chain} : entry.command = .endIf → f.program.chains.chainOf entry.index = .ok chain →
      Effect f entry .next { f with taken := f.taken.erase (f.depth, chain.ifIndex) }
  | loopBegun {id v} : entry.command = .for_ id →
      Effect f entry .next
        { f with loops := ⟨f.depth, id, v⟩ :: f.loops.filter fun l => !isRun f.depth id l }
  | loopPassed {id loop j} : entry.command = .for_ id → f.program.loops.loop id = .ok loop →
      loop.exitIndex = .ok j →
      Effect f entry (.jump j) { f with loops := f.loops.filter fun l => !isRun f.depth id l }
  | loopAgain {id loop after run before v} : goesOnWith? entry.command = some id →
      f.program.loops.loop id = .ok loop → f.Runs id after run before →
      Effect f entry (.jump loop.bodyIndex)
        { f with loops := after ++ { run with value := v } :: before }
  | loopLeft {id loop after run before j} :
      goesOnWith? entry.command = some id ∨ leaves? entry.command = some id →
      f.program.loops.loop id = .ok loop → f.Runs id after run before → loop.exitIndex = .ok j →
      Effect f entry (.jump j) { f with loops := before }
  | loopKept {id c} : entry.command = .skipIf id c ∨ entry.command = .breakIf id c →
      Effect f entry .next f
  | sub {name last} : entry.command = .sub name last → Effect f entry (.jump (last + 1)) f
  | gosub {name target} : entry.command = .gosub name target →
      Effect f entry (.jump (target + 1)) { f with calls := ⟨entry.index, name⟩ :: f.calls }
  | return_ {frame calls} : entry.command = .endSub ∨ (∃ a, entry.command = .return_ a) →
      f.calls = frame :: calls →
      Effect f entry (.jump (frame.callIndex + 1))
        { f with
          calls
          loops := f.loops.filter fun l => l.depth != f.depth
          taken := f.taken.filter fun entry => entry.1.1 != f.depth }
  | exit : entry.command = .endMain ∨ entry.command = .exit → Effect f entry .exit f

theorem Effect.program_eq {f f' : Flow} {entry : Entry} {m : Move} (h : Effect f entry m f') :
    f'.program = f.program := by
  cases h <;> rfl

theorem Effect.next_eq {f f' : Flow} {entry : Entry} {m : Move} (h : Effect f entry m f') :
    f'.next = f.next := by
  cases h <;> rfl

theorem Effect.eq_of_exit {f f' : Flow} {entry : Entry} (h : Effect f entry .exit f') : f' = f := by
  cases h
  rfl

variable {e e' : Engine} {m : Move} {entry : Entry} {id : LoopId}

theorem gives_failRuntime {α : Type} {detail : String} {a : α} :
    Gives (failRuntime detail) e a e' ↔ False :=
  gives_throw

/-! ### Chains -/

theorem flow_setTaken {i : Nat} {b : Bool} {u : Unit} (h : Gives (setTaken i b) e u e') :
    e'.flow = { e.flow with taken := e.flow.taken.put (e.flow.depth, i) b } := by
  obtain rfl := gives_modify.mp h
  rfl

theorem gives_isTaken {i : Nat} {b : Bool} :
    Gives (isTaken i) e b e' ↔ e.flow.taken.get? (e.flow.depth, i) = some b ∧ e = e' := by
  unfold isTaken
  rw [gives_bind]
  simp only [gives_get]
  constructor
  · rintro ⟨_, _, ⟨rfl, rfl⟩, h⟩
    split at h
    · rename_i b' hb
      obtain ⟨rfl, rfl⟩ := gives_pure.mp h
      exact ⟨hb, rfl⟩
    · exact (gives_failRuntime.mp h).elim
  · rintro ⟨hb, rfl⟩
    refine ⟨e, e, ⟨rfl, rfl⟩, ?_⟩
    have hb : e.taken.get? (e.depth, i) = some b := hb
    rw [hb]
    exact gives_pure.mpr ⟨rfl, rfl⟩

theorem effect_if {c : Condition} (hc : entry.command = .if_ c)
    (h : Gives (executeIf entry.index c) e m e') : Effect e.flow entry m e'.flow := by
  obtain ⟨b, e₁, htruth, h⟩ := gives_bind.mp h
  obtain ⟨_, e₂, htaken, h⟩ := gives_bind.mp h
  have hflow := flow_setTaken htaken
  rw [(plain_truth c).flow_eq htruth] at hflow
  cases b with
  | true =>
    obtain ⟨rfl, rfl⟩ := gives_pure.mp h
    rw [hflow]
    exact .ifTrue hc
  | false =>
    simp only [Bool.false_eq_true, ↓reduceIte, gives_bind, gives_get, gives_lift, gives_pure] at h
    obtain ⟨_, _, ⟨rfl, rfl⟩, chain, _, ⟨hchain, rfl⟩, j, _, ⟨hj, rfl⟩, rfl, rfl⟩ := h
    have hprogram : e₂.program = e.flow.program := congrArg Flow.program hflow
    rw [hprogram] at hchain
    rw [hflow]
    exact .ifFalse hc hchain hj

/-- What a branch does once its condition, if it has one, was looked at. -/
theorem effect_branch_of_holds {chain : Chain} {holds : Bool} {following : Nat}
    (hm : entry.marks = true) (hc : holds = false → ∃ condition, entry.command = .elseIf condition)
    (hchain : e.flow.program.chains.chainOf entry.index = .ok chain)
    (hfollowing : chain.following entry.index = .ok following)
    (htaken : e.flow.taken.get? (e.flow.depth, chain.ifIndex) = some false)
    (h : Gives (if (!holds) = true then pure (.jump following)
      else do
        setTaken chain.ifIndex true
        pure .next : EngineM Move) e m e') : Effect e.flow entry m e'.flow := by
  cases holds with
  | false =>
    obtain ⟨rfl, rfl⟩ := gives_pure.mp h
    obtain ⟨condition, hc⟩ := hc rfl
    exact .branchFalse hc hchain hfollowing htaken
  | true =>
    obtain ⟨_, e₂, hset, h⟩ := gives_bind.mp h
    obtain ⟨rfl, rfl⟩ := gives_pure.mp h
    rw [flow_setTaken hset]
    exact .branchTrue hm hchain htaken

theorem effect_branch {c : Option Condition} (hm : entry.marks = true)
    (hc : ∀ condition, c = some condition → entry.command = .elseIf condition)
    (h : Gives (executeBranch entry.index c) e m e') : Effect e.flow entry m e'.flow := by
  unfold executeBranch at h
  simp only [gives_bind, gives_get, gives_lift, gives_isTaken] at h
  obtain ⟨_, _, ⟨rfl, rfl⟩, chain, _, ⟨hchain, rfl⟩, ending, _, ⟨hending, rfl⟩, following, _,
    ⟨hfollowing, rfl⟩, taken, _, ⟨htaken, rfl⟩, h⟩ := h
  rcases gives_ite.mp h with ⟨rfl, h⟩ | ⟨ht, h⟩
  · obtain ⟨rfl, rfl⟩ := gives_pure.mp h
    exact .branchPassed hm hchain hending htaken
  · obtain rfl := Bool.eq_false_iff.mpr ht
    cases c with
    | none =>
      exact effect_branch_of_holds hm (fun hf : true = false => by cases hf) hchain hfollowing htaken h
    | some condition =>
      obtain ⟨holds, e₁, hholds, h⟩ := gives_bind.mp h
      have hflow := (plain_truth condition).flow_eq hholds
      have hchain : e.flow.program.chains.chainOf entry.index = .ok chain := hchain
      rw [← hflow] at hchain htaken ⊢
      exact effect_branch_of_holds hm (fun _ => ⟨condition, hc condition rfl⟩) hchain hfollowing
        htaken h

theorem effect_endIf (hc : entry.command = .endIf) (h : Gives (executeEndIf entry.index) e m e') :
    Effect e.flow entry m e'.flow := by
  unfold executeEndIf at h
  simp only [gives_bind, gives_get, gives_lift, gives_set, gives_pure] at h
  obtain ⟨_, _, ⟨rfl, rfl⟩, chain, _, ⟨hchain, rfl⟩, _, _, rfl, rfl, rfl⟩ := h
  exact .endIf hc hchain

/-! ### Loops -/

theorem gives_findRun {after before : List ActiveLoop} {run : ActiveLoop}
    (h : Gives (findRun id) e (after, run, before) e') :
    e.flow.Runs id after run before ∧ e = e' := by
  obtain ⟨_, _, hget, h⟩ := gives_bind.mp h
  obtain ⟨rfl, rfl⟩ := gives_get.mp hget
  dsimp only at h
  split at h
  · rename_i l rest hl
    obtain ⟨heq, rfl⟩ := gives_pure.mp h
    cases heq
    have hne : e.loops.dropWhile (fun l => !isRun e.depth id l) ≠ [] := by
      rw [hl]
      exact List.cons_ne_nil _ _
    refine ⟨⟨?_, fun l hl => ?_, ?_⟩, rfl⟩
    · show e.loops = _
      rw [← hl, List.takeWhile_append_dropWhile]
    · have hp := List.all_takeWhile (p := fun l => !isRun e.depth id l) (l := e.loops)
      have := List.all_eq_true.mp hp l hl
      rwa [Bool.not_eq_true'] at this
    · have hhead := List.head_dropWhile_not (fun l => !isRun e.depth id l) hne
      simp only [hl, List.head_cons, Bool.not_eq_false'] at hhead
      exact hhead
  · exact (gives_failRuntime.mp h).elim

theorem effect_beginLoop (hc : entry.command = .for_ id) (h : Gives (beginLoop id) e m e') :
    Effect e.flow entry m e'.flow := by
  unfold beginLoop at h
  simp only [gives_bind, gives_get, gives_lift, gives_modify] at h
  obtain ⟨_, _, ⟨rfl, rfl⟩, loop, _, ⟨hloop, rfl⟩, _, _, rfl, start, e₂, hstart, _, _, rfl, stop,
    e₄, hstop, h⟩ := h
  have hflow := ((plain_number loop.stop).flow_eq hstop).trans
    (congrArg (fun f : Flow => { f with loops := ⟨e.depth, id, start⟩ :: f.loops })
      ((plain_number loop.start).flow_eq hstart))
  rcases gives_ite.mp h with ⟨-, h⟩ | ⟨-, h⟩
  · obtain ⟨rfl, rfl⟩ := gives_pure.mp h
    rw [hflow]
    exact .loopBegun hc
  · simp only [gives_bind, gives_modify, gives_lift, gives_pure] at h
    obtain ⟨_, _, rfl, j, _, ⟨hj, rfl⟩, rfl, rfl⟩ := h
    have hflow := congrArg (fun f : Flow => { f with loops := f.loops.tail }) hflow
    rw [show ({ e₄ with loops := e₄.loops.tail } : Engine).flow = _ from hflow]
    exact .loopPassed hc hloop hj

theorem effect_advanceLoop (hc : goesOnWith? entry.command = some id)
    (h : Gives (advanceLoop id) e m e') : Effect e.flow entry m e'.flow := by
  obtain ⟨⟨after, run, before⟩, _, hx, h⟩ := gives_bind.mp h
  obtain ⟨hrun, rfl⟩ := gives_findRun hx
  simp only [gives_bind, gives_get, gives_lift] at h
  obtain ⟨_, _, ⟨rfl, rfl⟩, loop, _, ⟨hloop, rfl⟩, step, e₁, hstep, h⟩ := h
  have hstep := (plain_number loop.step).flow_eq hstep
  rcases gives_ite.mp h with ⟨-, h⟩ | ⟨-, h⟩
  · obtain ⟨_, _, h, -⟩ := gives_bind.mp h
    exact (gives_failRuntime.mp h).elim
  · split at h
    · exact (gives_throw.mp h).elim
    · rename_i v _
      simp only [gives_bind, gives_modify] at h
      obtain ⟨_, _, rfl, stop, e₃, hstop, h⟩ := h
      have hflow := ((plain_number loop.stop).flow_eq hstop).trans
        (congrArg (fun f : Flow => { f with loops := after ++ { run with value := v } :: before }) hstep)
      rcases gives_ite.mp h with ⟨-, h⟩ | ⟨-, h⟩
      · obtain ⟨rfl, rfl⟩ := gives_pure.mp h
        rw [hflow]
        exact .loopAgain hc hloop hrun
      · simp only [gives_bind, gives_modify, gives_lift, gives_pure] at h
        obtain ⟨_, _, rfl, j, _, ⟨hj, rfl⟩, rfl, rfl⟩ := h
        have hflow := congrArg (fun f : Flow => { f with loops := before }) hflow
        rw [show ({ e₃ with loops := before } : Engine).flow = _ from hflow]
        exact .loopLeft (.inl hc) hloop hrun hj

theorem effect_leaveLoop (hc : leaves? entry.command = some id) (h : Gives (leaveLoop id) e m e') :
    Effect e.flow entry m e'.flow := by
  obtain ⟨⟨after, run, before⟩, _, hx, h⟩ := gives_bind.mp h
  obtain ⟨hrun, rfl⟩ := gives_findRun hx
  simp only [gives_bind, gives_modify, gives_get, gives_lift, gives_pure] at h
  obtain ⟨_, _, rfl, _, _, ⟨rfl, rfl⟩, loop, _, ⟨hloop, rfl⟩, j, _, ⟨hj, rfl⟩, rfl, rfl⟩ := h
  exact .loopLeft (.inr hc) hloop hrun hj

/-! ### Subroutines -/

theorem effect_call {name : String} {target : Nat} (hc : entry.command = .gosub name target)
    (h : Gives (call entry.index name target) e m e') : Effect e.flow entry m e'.flow := by
  unfold call at h
  simp only [gives_bind, gives_modify, gives_pure] at h
  obtain ⟨_, _, rfl, _, _, rfl, rfl, rfl⟩ := h
  exact .gosub hc

theorem effect_returnWith {v : Option String}
    (hc : entry.command = .endSub ∨ ∃ a, entry.command = .return_ a)
    (h : Gives (returnWith v) e m e') : Effect e.flow entry m e'.flow := by
  obtain ⟨_, _, hget, h⟩ := gives_bind.mp h
  obtain ⟨rfl, rfl⟩ := gives_get.mp hget
  split at h
  · exact (gives_failRuntime.mp h).elim
  · rename_i frame calls hcalls
    obtain ⟨_, e₁, hset, h⟩ := gives_bind.mp h
    obtain rfl := gives_set.mp hset
    have report {e₁ : Engine} (h : Gives (do
        modify fun e =>
          e.report .program s!"return from {frame.subroutine} to command {frame.callIndex + 1}"
        return .jump (frame.callIndex + 1) : EngineM Move) e₁ m e') :
        m = .jump (frame.callIndex + 1) ∧ e'.flow = e₁.flow := by
      obtain ⟨_, _, hreport, h⟩ := gives_bind.mp h
      obtain ⟨rfl, rfl⟩ := gives_pure.mp h
      exact ⟨rfl, (plain_report _ _).flow_eq hreport⟩
    cases v with
    | none =>
      obtain ⟨rfl, hflow⟩ := report h
      rw [hflow]
      exact .return_ hc hcalls
    | some v =>
      obtain ⟨_, e₂, hcells, h⟩ := gives_bind.mp h
      obtain ⟨rfl, hflow⟩ := report h
      rw [hflow, (plain_onCells _).flow_eq hcells]
      exact .return_ hc hcalls

/-! ### All commands -/

theorem effect_skipIf {c : Condition} {b : Bool} {x : EngineM Move}
    (hc : entry.command = .skipIf id c ∨ entry.command = .breakIf id c)
    (hx : ∀ {e m e'}, Gives x e m e' → Effect e.flow entry m e'.flow)
    (h : Gives (if b then x else pure .next) e m e') : Effect e.flow entry m e'.flow := by
  rcases gives_ite.mp h with ⟨-, h⟩ | ⟨-, h⟩
  · exact hx h
  · obtain ⟨rfl, rfl⟩ := gives_pure.mp h
    exact .loopKept hc

theorem effect_of_execute (h : Gives (execute entry) e m e') : Effect e.flow entry m e'.flow := by
  cases hs : entry.command.steers with
  | false =>
    have hgoes := goesOn_execute hs
    obtain rfl := hgoes.move h
    rw [hgoes.plain.flow_eq h]
    exact .plain hs
  | true =>
    unfold execute at h
    cases hc : entry.command <;> rw [hc] at h hs <;> first | (cases hs; done) | skip
    all_goals dsimp only at h
    case if_ c => exact effect_if hc h
    case elseIf c =>
      exact effect_branch (by rw [Entry.marks, hc]) (fun _ heq => by rw [hc, Option.some.inj heq]) h
    case else_ => exact effect_branch (by rw [Entry.marks, hc]) (fun _ heq => by cases heq) h
    case endIf => exact effect_endIf hc h
    case for_ id => exact effect_beginLoop hc h
    case next id | skip id | endFor id => exact effect_advanceLoop (by rw [hc, goesOnWith?]) h
    case skipIf id c =>
      obtain ⟨b, e₁, hb, h⟩ := gives_bind.mp h
      rw [← (plain_truth c).flow_eq hb]
      exact effect_skipIf (.inl hc) (effect_advanceLoop (by rw [hc, goesOnWith?])) h
    case break_ id => exact effect_leaveLoop (by rw [hc, leaves?]) h
    case breakIf id c =>
      obtain ⟨b, e₁, hb, h⟩ := gives_bind.mp h
      rw [← (plain_truth c).flow_eq hb]
      exact effect_skipIf (.inr hc) (effect_leaveLoop (by rw [hc, leaves?])) h
    case sub name last =>
      obtain ⟨rfl, rfl⟩ := gives_pure.mp h
      exact .sub hc
    case endSub => exact effect_returnWith (.inl hc) h
    case gosub name target => exact effect_call hc h
    case return_ a =>
      cases a with
      | none => exact effect_returnWith (.inr ⟨_, hc⟩) h
      | some a =>
        obtain ⟨v, e₁, hv, h⟩ := gives_bind.mp h
        rw [← (plain_text a).flow_eq hv]
        exact effect_returnWith (.inr ⟨_, hc⟩) h
    case endMain | exit =>
      obtain ⟨rfl, rfl⟩ := gives_pure.mp h
      exact .exit (by simp [hc])

end CommandScript.Engine
