import CommandScript.Proofs.Engine.Scope
import CommandScript.Proofs.Script.Compile

/-!
# The scope of a name at run time

A name is looked up in the subroutine that runs and among the loops in progress; the compiler checked
it against the subroutine and the loops around its command. `inScope_of_reachable` says that these are
the same wherever a run can get to, by commands, by the turns of a run and by steering it in any way.
-/

namespace CommandScript

namespace Program

/-- The loops are those around the command at `k`, innermost first. -/
structure LoopsAround (p : Program) (k : Nat) (ids : List LoopId) : Prop where
  mem : ∀ id, id ∈ ids ↔ p.Surrounds id k
  sorted : ids.Pairwise fun id other => other.index < id.index

namespace IsNested

variable {p : Program} {k : Nat}

theorem loopsAround (h : p.IsNested) (k : Nat) : p.LoopsAround k (loopsOf (p.around k)) where
  mem _ := mem_loopsOf.trans h.surrounds_iff.symm
  sorted := h.nested.loopsOf_pairwise k

end IsNested

end Program

namespace Engine

/-- The loops in progress at a depth of calls, innermost first. -/
def loopsAt (e : Engine) (depth : Nat) : List LoopId :=
  (e.loops.filter fun l => l.depth == depth).map (·.id)

/-- The engines that a program can come to without a fault: it is prepared, may be given a seed, a
mailbox and the time of day, executes commands, takes turns and is steered. -/
inductive Reachable (p : Program) : Engine → Prop where
  | start {settings : Settings} {log : Log} {clock : Moment} {draw : Generator → Nat → Nat}
      {tree : Files.Tree} {scan : String → Checked String} {e : Engine} :
      (prepare settings).run (ofProgram p settings log clock draw tree scan) = (.ok (), e) →
      Reachable p e
  | step {e e' : Engine} : Reachable p e → e.step = (.ok (), e') → Reachable p e'
  | control {e : Engine} (c : Control) : Reachable p e → Reachable p (e.control c)
  | turn {e e' : Engine} {outcome : Option (Checked RunOutcome)} : Reachable p e →
      e.turn = (outcome, e') → (∀ f, outcome ≠ some (.error f)) → Reachable p e'
  | seeded {e : Engine} (seed : UInt64) : Reachable p e → Reachable p (e.seeded seed)
  | mailbox {e : Engine} (waiting : List Control) :
      Reachable p e → Reachable p (e.withMailbox waiting)
  | clock {e : Engine} (clock : Moment) :
      Reachable p e → Reachable p { e with memory := { e.memory with clock } }

/-- The calls and loops in progress are those around the commands that they stand for. -/
structure InScope (p : Program) (e : Engine) : Prop where
  program : e.program = p
  next_lt : e.next < p.size
  /-- The next command lies in the subroutine that runs. -/
  owner : p.LiesIn e.next (e.calls.head?.map (·.subroutine))
  /-- A call was made by a `GOSUB` that lies in the subroutine called before. -/
  call : ∀ above frame below, e.calls = above ++ frame :: below →
    (∃ (entry : Entry) (target : Nat), p.commands[frame.callIndex]? = some entry ∧
      entry.command = .gosub frame.subroutine target) ∧
    p.LiesIn frame.callIndex (below.head?.map (·.subroutine))
  loops : p.LoopsAround e.next (e.loopsAt e.depth)
  loopsBelow : ∀ above frame below, e.calls = above ++ frame :: below →
    p.LoopsAround frame.callIndex (e.loopsAt below.length)
  depth_le : ∀ l ∈ e.loops, l.depth ≤ e.depth

/-- The flow at the beginning of a program. -/
def Flow.start (p : Program) : Flow := ⟨p, 0, [], [], [], false⟩

theorem Flow.Scoped.start {p : Program} (hn : p.IsNested) : (Flow.start p).Scoped where
  next_lt := by
    obtain ⟨e, he, -⟩ := hn.exit
    have := List.length_pos_of_mem (List.mem_of_getLast? he)
    rwa [p.length_entries] at this
  calls := .main rfl
  loops := rfl

/-! ### What keeps the flow -/

variable {e e' : Engine} {p : Program}

theorem plain_prepare (settings : Settings) : Plain (prepare settings) := by
  have rest : Plain (do
      applyOptions (← get).program.startup
      modify fun e => { e with base := e.desk.base } : EngineM Unit) :=
    plain_getData_bind (fun _ => rfl) fun _ =>
      plain_bind (plain_applyOptions _) fun _ => plain_modify (fun _ => rfl) fun _ => rfl
  unfold prepare
  refine plain_ite ?_ rest
  exact plain_bind (plain_applyOption _) fun _ => rest

theorem flow_control (e : Engine) (c : Control) :
    (e.control c).flow = e.flow ∨ (e.control c).flow = Flow.start e.program := by
  unfold control
  cases c with
  | run | resume | step | pause =>
    left
    dsimp only
    split <;> rfl
  | stop | breakpoint line => exact .inl rfl
  | reset =>
    right
    dsimp only
    obtain ⟨log, hreset⟩ :=
      (e.report .program s!"{Control.reset} received while {e.state}").exists_reset
    rw [hreset]
    rfl

/-- What every control command keeps holds behind all that wait. -/
theorem drained_induction {motive : Engine → Prop} (h : motive e)
    (hemptied : ∀ e, motive e → motive { e with mailbox := some [] })
    (hcontrol : ∀ e c, motive e → motive (e.control c)) : motive e.drained := by
  have all (waiting : List Control) {e : Engine} (h : motive e) :
      motive (waiting.foldl control e) := by
    induction waiting generalizing e with
    | nil => exact h
    | cons c waiting ih => exact ih (hcontrol _ c h)
  unfold drained
  split
  · exact h
  · exact all _ (hemptied e h)

/-! ### Runs -/

/-- The engine runs the program, and its calls and loops in progress belong to the next command. -/
structure Sound (p : Program) (e : Engine) : Prop where
  program : e.program = p
  flow : e.flow.Scoped

namespace Sound

theorem of_flow (h : Sound p e) (hf : e'.flow = e.flow) : Sound p e' where
  program := (congrArg Flow.program hf).trans h.program
  flow := hf ▸ h.flow

theorem start (hn : p.IsNested) (hf : e.flow = Flow.start p) : Sound p e where
  program := congrArg Flow.program hf
  flow := hf ▸ Flow.Scoped.start hn

theorem control (h : Sound p e) (hn : p.IsNested) (c : Control) : Sound p (e.control c) := by
  rcases e.flow_control c with hf | hf
  · exact h.of_flow hf
  · exact .start hn (h.program ▸ hf)

theorem finish (h : Sound p e) : Sound p (finish.run e).2 where
  program := (congrArg Flow.program (flow_finish e)).trans h.program
  flow := by
    rw [flow_finish]
    exact ⟨h.flow.next_lt, h.flow.calls, h.flow.loops⟩

theorem follow (h : Sound p e) (hn : p.IsNested) {entry : Entry} {m : Move}
    (hentry : p.commands[e.next]? = some entry) (hx : Effect e.flow entry m e'.flow) :
    Sound p ((Engine.follow m).run e').2 := by
  have hprogram : e'.program = p := hx.program_eq.trans h.program
  have hnext : e'.next = e.next := hx.next_eq
  have hsame : e.flow.program = p := h.program
  have hentry : e.flow.program.entries[e.flow.next]? = some entry := by
    rw [hsame, Program.getElem?_entries]
    exact hentry
  have move {j : Nat} (hj : m.target? e.next = some j) : Flow.Scoped { e'.flow with next := j } :=
    h.flow.effect (hsame ▸ hn) hentry hx hj
  cases m with
  | next => exact ⟨hprogram, move (congrArg (fun n => some (n + 1)) hnext.symm)⟩
  | jump target => exact ⟨hprogram, move rfl⟩
  | exit => exact (h.of_flow hx.eq_of_exit).finish

theorem step (h : Sound p e) (hn : p.IsNested) (hs : e.step = (.ok (), e')) : Sound p e' := by
  have ends {r : Checked Unit × Engine} (hr : Sound p r.2) (heq : r = (.ok (), e')) : Sound p e' := by
    rwa [heq] at hr
  unfold Engine.step at hs
  split at hs
  · exact ends h hs
  · split at hs
    · exact ends h.finish hs
    · rename_i entry hentry
      split at hs
      · rename_i m e₁ hx
        rw [h.program] at hentry
        exact ends (h.follow hn hentry
          (effect_of_execute (e := { e with skipBreakpoint := false }) hx)) hs
      · cases hs

theorem drained (h : Sound p e) (hn : p.IsNested) : Sound p e.drained :=
  drained_induction h (fun _ h => h.of_flow rfl) fun _ c h => h.control hn c

theorem turn (h : Sound p e) (hn : p.IsNested) {outcome : Option (Checked RunOutcome)}
    (ht : e.turn = (outcome, e')) (hok : ∀ f, outcome ≠ some (.error f)) : Sound p e' := by
  have h := h.drained hn
  have execute (ht : e.drained.executeTurn = (outcome, e')) : Sound p e' := by
    unfold executeTurn at ht
    split at ht
    · cases ht
      exact absurd rfl (hok _)
    · rename_i after hs
      have hafter := h.step hn hs
      split at ht <;> cases ht
      · exact hafter.of_flow rfl
      · exact hafter
  unfold Engine.turn at ht
  dsimp only at ht
  split at ht
  · cases ht
    exact h
  · split at ht <;> cases ht
    · exact h
    · exact h.of_flow rfl
  all_goals
    split at ht
    · cases ht
      exact h.of_flow rfl
    · exact execute ht

end Sound

theorem Reachable.sound (h : Reachable p e) (hn : p.IsNested) : Sound p e := by
  induction h with
  | @start settings _ _ _ _ _ _ hx =>
    exact .start hn ((plain_prepare settings).flow_eq hx)
  | step _ hs ih => exact ih.step hn hs
  | control c _ ih => exact ih.control hn c
  | turn _ ht hok ih => exact ih.turn hn ht hok
  | seeded seed _ ih => exact ih.of_flow rfl
  | mailbox waiting _ ih => exact ih.of_flow rfl
  | clock clock _ ih => exact ih.of_flow rfl

/-- A turn without an outcome leaves the rest of the turns to the engine behind it. -/
theorem runFor_succ {turns : Nat} (h : e.turn.1 = none) :
    e.runFor (turns + 1) = e.turn.2.runFor turns := by
  rw [Engine.runFor]
  rcases ht : e.turn with ⟨outcome, e'⟩
  rw [ht] at h
  cases h
  rfl

/-- A run without a fault stays among the reachable engines. -/
theorem Reachable.runFor (h : Reachable p e) (turns : Nat)
    (hok : ∀ f, (e.runFor turns).1 ≠ some (.error f)) : Reachable p (e.runFor turns).2 := by
  induction turns generalizing e with
  | zero => exact h
  | succ turns ih =>
    unfold Engine.runFor at hok ⊢
    rcases ht : e.turn with ⟨outcome | outcome, e'⟩
    · rw [ht] at hok
      exact ih (h.turn ht nofun) hok
    · rw [ht] at hok
      exact h.turn ht hok

/-! ### The scope of the next command -/

theorem loopsAt_eq (e : Engine) (depth : Nat) :
    e.loopsAt depth =
      ((e.loops.map ActiveLoop.label).filter fun x => x.1 == depth).map Prod.snd := by
  rw [loopsAt, List.filter_map, List.map_map]
  rfl

theorem Sound.inScope (h : Sound p e) (hn : p.IsNested) : InScope p e := by
  obtain ⟨rfl, h⟩ := h
  have hcalls : e.program.LeadsTo e.calls e.next := h.calls
  have hlabels : e.loops.map ActiveLoop.label =
      (loopsOf (e.program.around e.next)).map (e.depth, ·) ++ e.program.loopsBelow e.calls := h.loops
  have snd (d : Nat) (ids : List LoopId) : (ids.map (d, ·)).map Prod.snd = ids := by
    rw [List.map_map]
    exact List.map_id ids
  refine ⟨rfl, h.next_lt, hn.liesIn_iff.mpr hcalls.owner, fun above frame below heq => ?_, ?_,
    fun above frame below heq => ?_, fun l hl => ?_⟩
  · rw [heq] at hcalls
    obtain ⟨⟨entry, target, he, hc⟩, hbelow⟩ := hcalls.split
    exact ⟨⟨entry, target, Program.getElem?_entries _ _ ▸ he, hc⟩, hn.liesIn_iff.mpr hbelow.owner⟩
  · have hfilter := e.program.filter_loopsBelow e.calls
    rw [loopsAt_eq, hlabels, List.filter_append, Program.filter_depth, depth, hfilter,
      List.append_nil, snd]
    exact hn.loopsAround e.next
  · have hne : e.depth ≠ below.length := by
      rw [depth, heq, List.length_append, List.length_cons]
      omega
    rw [loopsAt_eq, hlabels, List.filter_append, Program.filter_depth_of_ne hne, heq,
      Program.loopsBelow_at, List.nil_append, snd]
    exact hn.loopsAround frame.callIndex
  · have hmem := hlabels ▸ List.mem_map_of_mem (f := ActiveLoop.label) hl
    rcases List.mem_append.mp hmem with hmem | hmem
    · obtain ⟨id, -, heq⟩ := List.mem_map.mp hmem
      exact Nat.le_of_eq (congrArg Prod.fst heq).symm
    · exact Nat.le_of_lt (Program.depth_lt_of_mem_loopsBelow hmem)

/-- A name is a loop variable if a loop around the next command has it. -/
theorem InScope.loopValue? (h : InScope p e) (name : String) :
    (e.viewpoint.loopValue? name).isSome ↔ ∃ id : LoopId, id.name = name ∧ p.Surrounds id e.next := by
  simp only [Viewpoint.loopValue?, Option.isSome_map, List.find?_isSome, Bool.and_eq_true,
    beq_iff_eq, ← h.loops.mem, loopsAt, List.mem_map, List.mem_filter]
  constructor
  · rintro ⟨l, hl, hdepth, rfl⟩
    exact ⟨l.id, rfl, l, ⟨hl, hdepth⟩, rfl⟩
  · rintro ⟨id, rfl, l, ⟨hl, hdepth⟩, rfl⟩
    exact ⟨l, hl, hdepth, rfl⟩

/-- Wherever a run of the program of a script gets to, names mean what the compiler took them for. -/
theorem inScope_of_reachable {settings : Settings} {script : String} {log : Log}
    (hp : (Script.compile settings script log).1 = .ok p) (h : Reachable p e) : InScope p e :=
  (h.sound (Script.isNested_of_compile hp)).inScope (Script.isNested_of_compile hp)

/-- A random number that goes by how many were asked for before. -/
def dealt (g : Generator) (bound : Nat) : Nat :=
  (g.asked.length + 3) % bound

/-- An engine with nothing but its program, on an empty tree. -/
def bare (p : Program) : Engine :=
  ofProgram p {} {} Moment.epoch dealt {} noScanner

/-- Where two loops run, one inside the other. -/
theorem inScope_blocks :
    ∃ p e, (Script.compile {} Script.blocks).1 = .ok p ∧ Reachable p e ∧ e.loops.length = 2 ∧
      InScope p e := by
  have h : (Script.compile {} Script.blocks).1.toOption.any (fun p =>
      ((prepare {}).run (bare p)).1.isOk && (((prepare {}).run (bare p)).2.runFor 5).1.isNone &&
        (((prepare {}).run (bare p)).2.runFor 5).2.loops.length == 2) = true := by
    decide +kernel
  cases hp : (Script.compile {} Script.blocks).1 with
  | error f =>
    rw [hp] at h
    cases h
  | ok p =>
    rw [hp] at h
    simp only [Except.toOption, Option.any_some, Bool.and_eq_true, beq_iff_eq,
      Option.isNone_iff_eq_none] at h
    obtain ⟨⟨hready, hnone⟩, hlen⟩ := h
    rcases hprep : (prepare {}).run (bare p) with ⟨f | u, e⟩ <;> rw [hprep] at hready hnone hlen
    · cases hready
    · have hreach := (Reachable.start hprep).runFor 5
        (by rw [hnone]; exact fun _ h => absurd h.symm (Option.some_ne_none _))
      exact ⟨p, _, rfl, hreach, hlen, inScope_of_reachable hp hreach⟩

end Engine

end CommandScript
