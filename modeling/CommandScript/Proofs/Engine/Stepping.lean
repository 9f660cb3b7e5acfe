import CommandScript.Proofs.Engine.Steering

/-!
# Single steps

Before a command an engine takes in all the control commands that wait, so single steps that wait
together are one: however many are queued up behind a pause, a run that ends with them executes one
command (`Execution.executed_of_steps`). Each lot of single steps that an engine finds while it is
paused makes it execute one.
-/

namespace CommandScript

open Engine

namespace Engine

variable {e : Engine}

theorem state_pause (h : e.state ≠ .stopped) : (e.control .pause).state = .paused := by
  unfold control
  dsimp only
  split
  · exact absurd ‹_› h
  · rfl

theorem state_step (h : e.state ≠ .stopped) :
    (e.control .step).state = .stepping ∧ (e.control .step).skipBreakpoint = true := by
  unfold control
  dsimp only
  split
  · exact absurd ‹_› h
  · exact ⟨rfl, rfl⟩

/-- Told more than once to take a single step, an engine is about to take one. -/
theorem state_steps (h : e.state ≠ .stopped) (n : Nat) :
    ((List.replicate (n + 1) .step).foldl control e).state = .stepping ∧
      ((List.replicate (n + 1) .step).foldl control e).skipBreakpoint = true := by
  induction n generalizing e with
  | zero => exact state_step h
  | succ n ih =>
    rw [List.replicate_succ, List.foldl_cons]
    refine ih ?_
    rw [(state_step h).1]
    nofun

/-- An engine at the beginning of a program has all of it before it. -/
theorem Fresh.flow {p : Program} (h : Fresh p e) : e.flow = Flow.start p := by
  induction h with
  | @prepared settings log clock draw tree scan e h => exact (plain_prepare settings).flow_eq h
  | seeded seed _ ih => exact ih

/-- Behind a single step the engine is paused, unless the command has ended the program or failed. -/
theorem executeTurn_of_stepping (hstate : e.state = .stepping)
    (h : Executed e e.step.1 e.step.2) :
    e.executeTurn.2.mailbox = e.mailbox ∧
      (e.executeTurn.1 = none ∨ ∃ f, e.executeTurn.1 = some (.error f)) ∧
      (e.executeTurn.2.state = .paused ∨ e.executeTurn.2.state = .stopped ∧
        (e.step.1 = .ok () → e.executeTurn.2.finished = true)) := by
  unfold executeTurn
  rcases hstep : e.step with ⟨g | u, after⟩ <;> rw [hstep] at h
  · refine ⟨h.mailbox, .inr ⟨g, rfl⟩, .inr ?_⟩
    rcases h.state with ⟨hok, -⟩ | hstopped
    · cases hok
    · exact hstopped
  · dsimp only
    rcases h.state with ⟨-, hsame⟩ | ⟨hstopped, hends⟩
    · rw [if_pos ⟨hstate, hsame.trans hstate⟩]
      exact ⟨h.mailbox, .inl rfl, .inl rfl⟩
    · rw [if_neg fun hstepping => by cases hstopped.symm.trans hstepping.2]
      exact ⟨h.mailbox, .inl rfl, .inr ⟨hstopped, hends⟩⟩

end Engine

namespace Execution

/-- The engine as its next turn finds it. -/
def poised (times : Nat → Moment) (x : Execution) : Engine :=
  x.engine.clocked (times x.executed)

/-- Takes turns until one gives an outcome, but no more than that number. The clock shows `times n`
in the turn of command number `n`. -/
def run (times : Nat → Moment) : Nat → Execution → Option (Checked RunOutcome) × Execution
  | 0, x => (none, x)
  | turns + 1, x =>
    match (x.poised times).turn.1 with
    | some outcome => (some outcome, x.act times .turn)
    | none => run times turns (x.act times .turn)

variable {p : Program} {x y : Execution} {times : Nat → Moment} {turns : Nat}

theorem run_of_outcome {outcome : Checked RunOutcome}
    (h : (x.poised times).turn.1 = some outcome) :
    run times (turns + 1) x = (some outcome, x.act times .turn) := by
  rw [run, h]

theorem run_of_none (h : (x.poised times).turn.1 = none) :
    run times (turns + 1) x = run times turns (x.act times .turn) := by
  rw [run, h]

/-- A run is a schedule of turns. -/
theorem exists_after_of_run {outcome : Option (Checked RunOutcome)}
    (h : run times turns x = (outcome, y)) :
    ∃ n, y = x.after times (List.replicate n .turn) := by
  induction turns generalizing x with
  | zero =>
    cases h
    exact ⟨0, rfl⟩
  | succ turns ih =>
    cases hturn : (x.poised times).turn.1 with
    | some outcome =>
      rw [run_of_outcome hturn] at h
      cases h
      exact ⟨1, rfl⟩
    | none =>
      rw [run_of_none hturn] at h
      obtain ⟨n, hn⟩ := ih h
      exact ⟨n + 1, hn⟩

theorem executed_act_turn (x : Execution) : (x.act times .turn).executed =
    if (x.poised times).executing?.isSome then x.executed + 1
    else x.executed :=
  executed_turn (x.clocked (times x.executed))

theorem engine_act_turn (x : Execution) :
    (x.act times .turn).engine = (x.poised times).turn.2 :=
  engine_turn (x.clocked (times x.executed))

/-- A run returns where the engine has stopped. -/
theorem exists_run_of_stopped
    (h : (x.poised times).drained.state = .stopped) :
    ∃ turns outcome y, run times turns x = (some outcome, y) ∧ y.executed = x.executed := by
  have houtcome : ∃ outcome, (x.poised times).turn.1 = some outcome := by
    unfold Engine.turn
    dsimp only
    rw [h]
    exact ⟨_, rfl⟩
  obtain ⟨outcome, houtcome⟩ := houtcome
  refine ⟨1, outcome, _, run_of_outcome houtcome, ?_⟩
  rw [executed_act_turn, Stuck.executing?_eq (.inl h)]
  rfl

/-- Where nobody fills the mailbox any more, a run also returns where the engine is paused. -/
theorem exists_run_of_not_going
    (hmailbox : (x.poised times).drained.mailbox = some [])
    (h : ¬(x.poised times).drained.IsGoing) :
    ∃ turns outcome y, run times turns x = (some outcome, y) ∧ y.executed = x.executed := by
  cases hstate : (x.poised times).drained.state with
  | running => exact absurd (.inl hstate) h
  | stepping => exact absurd (.inr hstate) h
  | stopped => exact exists_run_of_stopped hstate
  | paused =>
    -- the channel is closed, and the next turn finds the engine stopped
    have hturn : (x.poised times).turn =
        (none, { (x.poised times).drained.report .program
          "control channel closed" with state := .stopped }) := by
      unfold Engine.turn
      dsimp only
      rw [hstate, hmailbox]
    have hcount : (x.act times .turn).executed = x.executed := by
      rw [executed_act_turn]
      unfold executing?
      simp only [hstate]
      rfl
    have hengine : (x.act times .turn).engine = _ := engine_act_turn x
    rw [hturn] at hengine
    have hstopped : ((x.act times .turn).poised times).drained.state = .stopped := by
      refine state_drained_of_stopped (congrArg Engine.state hengine) fun waiting hwaiting => ?_
      have hempty : (x.act times .turn).engine.mailbox = some [] :=
        (congrArg Engine.mailbox hengine).trans hmailbox
      cases hempty.symm.trans hwaiting
      exact List.not_mem_nil
    obtain ⟨turns, outcome, y, hrun, hy⟩ := exists_run_of_stopped hstopped
    exact ⟨turns + 1, outcome, y, (run_of_none (by rw [hturn])).trans hrun, hy.trans hcount⟩

variable {settings : Settings} {script : String} {log : Log}
  (hp : (Script.compile settings script log).1 = .ok p)

include hp

/-- An engine that finds itself about to take a single step executes a command in its turn, and is
paused behind it unless the command has ended the program or failed. -/
theorem turn_of_single_step (hvisits : Visits p x.engine)
    (hstate : (x.poised times).drained.state = .stepping)
    (hskip : (x.poised times).drained.skipBreakpoint = true)
    (hfinished : (x.poised times).drained.finished = false) :
    (x.act times .turn).executed = x.executed + 1 ∧
      (x.act times .turn).engine.mailbox =
        (x.poised times).drained.mailbox ∧
      ((x.poised times).turn.1 = none ∨
        ∃ f, (x.poised times).turn.1 = some (.error f)) ∧
      ((x.act times .turn).engine.state = .paused ∨ (x.act times .turn).engine.state = .stopped ∧
        ((x.poised times).drained.step.1 = .ok () →
          (x.act times .turn).engine.finished = true)) := by
  have hpoised : Visits p (x.poised times) := hvisits.clock _
  rw [engine_act_turn, executed_act_turn]
  generalize x.poised times = e at *
  have hgoing : e.drained.IsGoing := .inr hstate
  have hpassed : e.drained.breakpointLine? = none := by
    unfold breakpointLine?
    rw [if_pos hskip]
  obtain ⟨entry, hentry⟩ : ∃ entry, e.drained.program.commands[e.drained.next]? = some entry :=
    ⟨_, Array.getElem?_eq_getElem (hpoised.next_lt hp)⟩
  have hexecuting : e.executing? = some entry := by
    rw [executing?_of_going hgoing, hpassed, hfinished, ← hentry]
    rfl
  have hturn : e.turn = e.drained.executeTurn := by
    rw [turn_of_going hgoing, hpassed]
  rw [hturn, hexecuting]
  exact ⟨rfl, executeTurn_of_stepping hstate (hpoised.executed hp hfinished hentry)⟩

/-- Single steps that wait behind a pause are one, if there are any, and the run returns. -/
theorem exists_run_of_steps {e : Engine} (he : Fresh p e) (n : Nat) : ∃ turns outcome y,
    run times turns { engine := e.withMailbox (.pause :: List.replicate n .step) } =
      (some outcome, y) ∧ y.executed = min n 1 := by
  have hrunning : e.state = .running := (he.undisturbed hp).2
  have hunfinished : e.finished = false := congrArg Flow.finished he.flow
  let x : Execution := { engine := e.withMailbox (.pause :: List.replicate n .step) }
  let paused : Engine := { x.poised times with mailbox := some [] }.control .pause
  have hdrained : (x.poised times).drained = (List.replicate n .step).foldl control paused := rfl
  have hpaused : paused.state = .paused := state_pause (hrunning.symm ▸ nofun)
  have hmailbox : (x.poised times).drained.mailbox = some [] := by
    rw [hdrained, mailbox_controls]
    exact mailbox_control _ _
  cases n with
  | zero =>
    refine exists_run_of_not_going hmailbox ?_
    rw [hdrained]
    rintro (h | h) <;> cases hpaused.symm.trans h
  | succ n =>
    obtain ⟨hstate, hskip⟩ := state_steps (e := paused) (by rw [hpaused]; nofun) n
    have hawaits : (x.poised times).AwaitsNoReset := by
      rintro _ ⟨⟩ hmem
      rcases List.mem_cons.mp hmem with hpause | hstep
      · cases hpause
      · cases List.eq_of_mem_replicate hstep
    obtain ⟨hcount, hmailbox', hanswer, hbehind⟩ :=
      turn_of_single_step hp (he.visits.mailbox _) (hdrained ▸ hstate) (hdrained ▸ hskip)
        ((unmoved_drained hawaits).finished_eq.trans hunfinished)
    rcases hanswer with hnone | ⟨f, hfault⟩
    · let y := x.act times .turn
      have hempty : (y.poised times).mailbox = some [] := hmailbox'.trans hmailbox
      have hdrained' : (y.poised times).drained = y.poised times := drained_of_empty (by rw [hempty]; rfl)
      have hhalted : ¬(y.poised times).IsGoing := by
        rintro (h | h) <;> rcases hbehind with hpaused | ⟨hstopped, -⟩
        · cases hpaused.symm.trans h
        · cases hstopped.symm.trans h
        · cases hpaused.symm.trans h
        · cases hstopped.symm.trans h
      rw [← hdrained'] at hempty hhalted
      obtain ⟨turns, outcome, y, hrun, hy⟩ := exists_run_of_not_going hempty hhalted
      refine ⟨turns + 1, outcome, y, (run_of_none hnone).trans hrun, ?_⟩
      rw [hy, hcount, Nat.min_eq_right (Nat.succ_pos n)]
    · refine ⟨1, .error f, _, run_of_outcome hfault, ?_⟩
      rw [hcount, Nat.min_eq_right (Nat.succ_pos n)]

/-- Single steps that come in lots, each of which is taken in before the next one comes. -/
def lots (sizes : List Nat) : List Happening :=
  sizes.flatMap fun n => [.mailbox (List.replicate (n + 1) .step), .turn]

/-- While the program goes on, a paused engine executes a command for each lot of single steps. -/
theorem executed_lots {e : Engine} {m : Nat}
    (hunfinished : ∀ i < m, (steps times e i).finished = false)
    (hanswers : ∀ i, i + 1 < m → answerAt times e i = .ok ()) (sizes : List Nat)
    (h : x.Traces p times e) (hpaused : x.executed < m → x.engine.state = .paused)
    (hm : x.executed + sizes.length ≤ m) :
    (x.after times (lots sizes)).executed = x.executed + sizes.length := by
  induction sizes generalizing x with
  | nil => rfl
  | cons n sizes ih =>
    rw [List.length_cons] at hm ⊢
    let told : Execution := x.act times (.mailbox (List.replicate (n + 1) .step))
    have hsteps : Control.reset ∉ List.replicate (n + 1) Control.step := fun hmem => by
      cases List.eq_of_mem_replicate hmem
    have htold : told.Traces p times e := h.act hp hsteps
    have hbehind : (told.act times .turn).Traces p times e := htold.act hp List.not_mem_nil
    have hlt : x.executed < m := by omega
    have hlive : x.engine.state ≠ .stopped := by
      rw [hpaused hlt]
      nofun
    obtain ⟨hstate, hskip⟩ := state_steps (e := { told.poised times with mailbox := some [] }) hlive n
    have hunmoved : told.engine.Unmoved (told.poised times).drained :=
      (unmoved_clocked _ _).trans (unmoved_drained (e := told.poised times) htold.awaits)
    have hfinished : (told.poised times).drained.finished = false := by
      rw [hunmoved.finished_eq, htold.finished_eq]
      exact hunfinished _ hlt
    obtain ⟨hcount, -, -, hstate'⟩ := turn_of_single_step hp htold.visits hstate hskip hfinished
    have hcount' : (told.act times .turn).executed = x.executed + 1 := hcount
    have hnext := ih hbehind (fun hlt' => ?_) (by omega)
    · have hlots : x.after times (lots (n :: sizes)) =
        (told.act times .turn).after times (lots sizes) := rfl
      rw [hlots, hnext, hcount']
      omega
    · -- the command neither failed nor ended the program, since more commands come behind it
      rw [hcount'] at hlt'
      refine hstate'.resolve_right fun ⟨_, hends⟩ => ?_
      have hanswer := (htold.step hunmoved (clock_drained _)).1.trans (hanswers _ hlt')
      have hgoes := hunfinished _ hlt'
      rw [← hcount', ← hbehind.finished_eq, hends hanswer] at hgoes
      cases hgoes

omit hp

/-- Of single steps that wait behind a pause one is taken, however many they are: the others are
lost. An engine that takes in each of them, or each lot of them, before the next one comes executes
as many commands as there are lots, as long as the undisturbed run goes on. -/
theorem executed_of_steps (hp : (Script.compile settings script log).1 = .ok p) {e : Engine}
    (he : Fresh p e) (times : Nat → Moment) :
    (∀ n, ∃ turns outcome y,
      run times turns { engine := e.withMailbox (.pause :: List.replicate n .step) } =
        (some outcome, y) ∧ y.executed = min n 1) ∧
    ∀ turns outcome alone, run times turns { engine := e } = (some outcome, alone) →
      ∀ sizes : List Nat, sizes.length ≤ alone.executed →
        (Execution.after times { engine := e } (.control .pause :: lots sizes)).executed =
          sizes.length := by
  refine ⟨exists_run_of_steps hp he, fun turns outcome alone hrun sizes hsizes => ?_⟩
  obtain ⟨k, rfl⟩ := exists_after_of_run hrun
  have halone : Execution.Traces p times e _ := traces_after hp he (resetFree_turns k)
  have hfresh : Execution.Traces p times e { engine := e } := traces_after hp he (resetFree_turns 0)
  have hrunning : e.state = .running := (he.undisturbed hp).2
  have hpaused : Execution.Traces p times e (Execution.act times { engine := e } (.control .pause)) :=
    hfresh.act hp (by decide)
  have hlots := executed_lots hp halone.unfinished halone.answers sizes hpaused
    (fun _ => state_pause (hrunning.symm ▸ nofun)) ((Nat.zero_add sizes.length).symm ▸ hsizes)
  exact hlots.trans (Nat.zero_add _)

/-- Of three single steps in a row one is taken; in lots of one and of two they are two. -/
theorem executed_of_steps_sums : ∃ (p : Program) (e : Engine),
    (Script.compile {} sums).1 = .ok p ∧ Fresh p e ∧
    (∃ turns outcome y,
      run ticking turns { engine := e.withMailbox [.pause, .step, .step, .step] } =
        (some outcome, y) ∧ y.executed = 1) ∧
    (∃ outcome alone, run ticking 20 { engine := e } = (some outcome, alone) ∧
      2 ≤ alone.executed) ∧
    (Execution.after ticking { engine := e } (.control .pause :: lots [0, 1])).executed = 2 := by
  obtain ⟨p, e, hp, hready, h⟩ := exists_of_tried sums
    (fun _ e => (run ticking 20 { engine := e }).1.isSome &&
      decide (2 ≤ (run ticking 20 { engine := e }).2.executed))
    (by decide +kernel)
  simp only [Bool.and_eq_true, decide_eq_true_eq] at h
  obtain ⟨outcome, houtcome⟩ := Option.isSome_iff_exists.mp h.1
  have hrun : run ticking 20 { engine := e } = (some outcome, (run ticking 20 { engine := e }).2) :=
    Prod.ext houtcome rfl
  obtain ⟨hqueued, hlots⟩ := executed_of_steps hp (.prepared hready) ticking
  exact ⟨p, e, hp, .prepared hready, hqueued 3, ⟨outcome, _, hrun, h.2⟩,
    hlots 20 outcome _ hrun [0, 1] h.2⟩

/-- The second of two single steps is lost, although the undisturbed run of the program has commands
left and no fault. -/
theorem step_lost_behind_pause : ∃ (p : Program) (e : Engine),
    (Script.compile {} "PRINT \"a\"\nPRINT \"b\"").1 = .ok p ∧ Fresh p e ∧
    (∃ alone, run ticking 9 { engine := e } = (some (.ok .completed), alone) ∧
      2 ≤ alone.executed) ∧
    ∃ y, run ticking 9 { engine := e.withMailbox [.pause, .step, .step] } =
      (some (.ok .stopped), y) ∧ y.executed ≠ 2 ∧ y.engine.output = #["a"] := by
  obtain ⟨p, e, hp, hready, h⟩ := exists_of_tried "PRINT \"a\"\nPRINT \"b\""
    (fun _ e =>
      let alone := run ticking 9 { engine := e }
      let queued := run ticking 9 { engine := e.withMailbox [.pause, .step, .step] }
      alone.1.any (·.toOption == some .completed) && decide (2 ≤ alone.2.executed) &&
        queued.1.any (·.toOption == some .stopped) && decide (queued.2.executed ≠ 2) &&
        queued.2.engine.output == #["a"])
    (by decide +kernel)
  simp only [Bool.and_eq_true, decide_eq_true_eq, beq_iff_eq, Option.any_eq_true] at h
  obtain ⟨⟨⟨⟨⟨c, halone, hc⟩, hcount⟩, ⟨c', hqueued, hc'⟩⟩, hlost⟩, hprinted⟩ := h
  rw [Checked.ok_of_toOption hc] at halone
  rw [Checked.ok_of_toOption hc'] at hqueued
  exact ⟨p, e, hp, .prepared hready, ⟨_, Prod.ext halone rfl, hcount⟩, _, Prod.ext hqueued rfl,
    hlost, hprinted⟩

end Execution

end CommandScript
