import CommandScript.Proofs.Engine.Stepping

/-!
# A reset is a fresh start

A program that keeps away from files runs behind a reset as it ran in the beginning, whatever was
done with its engine before, if its output is not copied to a full device (`Execution.same_of_reset`).
What an earlier run leaves behind are files, messages, what waits for the copy of the output and, at a
pause, the pause itself. So the engines of the two runs are no twins; they are in step
(`Engine.InStep`): all that the program can see or show of them is the same, and since the beginning
they have given the same warnings. A full device refuses what waits, and in the second run it may do so
sooner (`Execution.sooner_of_full`).
-/

namespace CommandScript

open Execution

namespace Engine

/-- The warnings given so far, oldest first. -/
def warnings (e : Engine) : List String := e.memory.log.messages .warn

theorem warnings_report (e : Engine) (c : Category) (message : String) :
    (e.report c message).warnings = e.warnings ++ if c = .warn then [message] else [] := by
  split
  · subst c
    exact Script.Recorder.messages_add e.memory.log rfl message
  · rename_i hc
    exact (Script.Recorder.messages_add_of_ne e.memory.log hc message).trans (List.append_nil _).symm

/-- The engine runs the same program as `a`, a reset takes it back to the same variables and the same
base directory, and what is written at it is taken. -/
structure Rooted (a e : Engine) : Prop where
  program : e.program = a.program
  initial : e.initial = a.initial
  root : e.base = a.base
  draw : e.memory.draw = a.memory.draw
  takes : e.papers.Takes

/-- The engines `e` and `f`, which were `a` and `b` once, have come to the same but for the files and
for the messages that are no warnings; where `same` does not hold, the moments of writes may differ,
too. -/
structure InStep (same : Prop) (base : Store) (a b e f : Engine) : Prop extends Rooted a e where
  taken : f.papers.Takes
  drawn : e.memory.draw = f.memory.draw
  fits : base.Fits e.memory.store
  store : e.memory.store.Alike same f.memory.store
  flow : e.flow = f.flow
  state : e.state = f.state
  output : e.output = f.output
  directory : e.desk.base = f.desk.base
  warned : ∃ given, e.warnings = a.warnings ++ given ∧ f.warnings = b.warnings ++ given

/-- Engines in step whose clocks show the same where `same` holds. -/
structure InStepNow (same : Prop) (base : Store) (a b e f : Engine) : Prop
    extends InStep same base a b e f where
  clock : same → e.memory.clock = f.memory.clock

variable {same : Prop} {base : Store} {a b e f : Engine} {p : Program}

theorem InStep.warned_report (h : InStep same base a b e f) (c : Category) (message : String) :
    ∃ given, (e.report c message).warnings = a.warnings ++ given ∧
      (f.report c message).warnings = b.warnings ++ given := by
  obtain ⟨given, he, hf⟩ := h.warned
  refine ⟨given ++ if c = .warn then [message] else [], ?_, ?_⟩
  · rw [warnings_report, he, List.append_assoc]
  · rw [warnings_report, hf, List.append_assoc]

theorem InStep.program_right (h : InStep same base a b e f) : f.program = a.program :=
  (congrArg Flow.program h.flow).symm.trans h.program

theorem InStep.fits_right (h : InStep same base a b e f) : base.Fits f.memory.store :=
  h.store.fits h.fits

theorem InStep.sameData (h : InStep same base a b e f) : SameData e f where
  store := h.store.timeless
  next := congrArg Flow.next h.flow
  calls := congrArg Flow.calls h.flow
  taken := congrArg Flow.taken h.flow
  loops := congrArg Flow.loops h.flow
  finished := congrArg Flow.finished h.flow
  output := h.output

theorem InStep.report (h : InStep same base a b e f) (c : Category) (message : String) :
    InStep same base a b (e.report c message) (f.report c message) :=
  { h with warned := h.warned_report c message }

theorem InStep.withPapers (h : InStep same base a b e f) {x y : Files.Papers} (hx : x.Takes) (hy : y.Takes)
    (hbase : x.desk.base = e.desk.base) (hbase' : y.desk.base = f.desk.base) :
    InStep same base a b { e with desk := x.desk, copy := x.copy }
      { f with desk := y.desk, copy := y.copy } :=
  { h with takes := hx, taken := hy, directory := hbase.trans (h.directory.trans hbase'.symm) }

/-- What goes smoothly at the papers makes no difference. -/
theorem InStep.onPapers (h : InStep same base a b e f) {action : Files.PapersM Unit}
    (htidy : Files.Papers.Tidy action) (hsmooth : Files.Papers.Smooth action) :
    ((onPapers action).run e).1 = ((onPapers action).run f).1 ∧
      InStep same base a b ((onPapers action).run e).2 ((onPapers action).run f).2 := by
  obtain ⟨x, hx, htakes⟩ := hsmooth.run h.takes
  obtain ⟨y, hy, htaken⟩ := hsmooth.run h.taken
  have hbase := htidy e.desk.base e.papers rfl
  have hbase' := htidy f.desk.base f.papers rfl
  rw [hx] at hbase
  rw [hy] at hbase'
  rw [run_onPapers, run_onPapers, hx, hy]
  exact ⟨rfl, h.withPapers htakes htaken hbase.1 hbase'.1⟩

instance : Likeness same base a.program (InStepNow same base a b) where
  memory h := ⟨h.store, h.fits, h.clock, h.drawn⟩
  program h := h.program
  flow h := h.flow
  withStore h hst hs := { h with fits := hs, store := hst }
  withFlow calls taken loops h :=
    { h with flow := congrArg (fun x : Flow => { x with calls, taken, loops }) h.flow }
  report c message h := { h with warned := h.warned_report c message }
  print line := by
    refine Couples.bind (couples_modify fun e f h => ?_) fun _ =>
      Couples.bind (fun e f h => ?_) fun _ => couples_modify fun e f h => ?_
    · exact { h with warned := h.warned_report .normal line }
    · obtain ⟨hanswer, hafter⟩ := h.toInStep.onPapers (Files.Papers.copying_copyLine line).tidy
        (Files.Papers.smooth_copyLine line)
      exact ⟨hanswer, { hafter with clock := h.clock }⟩
    · exact { h with output := congrArg (·.push line) h.output }
  option {o} ho := by
    have report (c : Category) (message : String) : Paired (InStepNow same base a b)
        (modify fun e => e.report c message : EngineM PUnit) :=
      couples_modify fun e f h => { h with warned := h.warned_report c message }
    unfold applyOption
    cases o with
    | debug mask => exact Couples.bind (couples_modify fun e f h => { h with }) fun _ => report _ _
    | testPath path =>
      refine Couples.bind (couples_modify fun e f h => ?_) fun _ => report _ _
      exact { h with
        takes := ⟨h.takes.closed, h.takes.takes⟩
        taken := ⟨h.taken.closed, h.taken.takes⟩
        directory := congrArg (Files.Path.join · path) h.directory }
    | outputFile path => cases ho

/-! ### Steps -/

/-- Where what is written is taken, the program ends without a fault. -/
theorem finish_of_takes (h : e.papers.Takes) : ∃ p : Files.Papers,
    finish.run e = (.ok (), (e.ended p).report .program s!"script finished at command {e.next}") ∧
      p.Takes ∧ p.desk.base = e.desk.base := by
  obtain ⟨p, hp, htakes⟩ := Files.Papers.smooth_settle.run h
  have hbase := Files.Papers.tidy_settle e.desk.base e.papers rfl
  rw [hp] at hbase
  refine ⟨p, ?_, htakes, hbase.1⟩
  rw [run_finish, hp]

namespace InStep

theorem finish (h : InStep same base a b e f) : (finish.run e).1 = (finish.run f).1 ∧
    InStep same base a b (finish.run e).2 (finish.run f).2 := by
  obtain ⟨x, hx, htakes, hbase⟩ := finish_of_takes h.takes
  obtain ⟨y, hy, htaken, hbase'⟩ := finish_of_takes h.taken
  have hnext : e.next = f.next := congrArg Flow.next h.flow
  have hdone : InStep same base a b { e with finished := true, state := .stopped }
      { f with finished := true, state := .stopped } :=
    { h with
      flow := congrArg (fun x : Flow => { x with finished := true }) h.flow
      state := rfl }
  rw [hx, hy, hnext]
  exact ⟨rfl, (hdone.withPapers htakes htaken hbase hbase').report _ _⟩

theorem follow (h : InStep same base a b e f) (m : Move) :
    ((follow m).run e).1 = ((follow m).run f).1 ∧
      InStep same base a b ((follow m).run e).2 ((follow m).run f).2 := by
  cases m with
  | next =>
    exact ⟨rfl, { h with flow := congrArg (fun x : Flow => { x with next := x.next + 1 }) h.flow }⟩
  | jump target =>
    exact ⟨rfl, { h with flow := congrArg (fun x : Flow => { x with next := target }) h.flow }⟩
  | exit => exact h.finish

theorem stopOn (h : InStep same base a b e f) (entry : Entry) (g : Fault) :
    InStep same base a b (e.stopOn entry g).2 (f.stopOn entry g).2 := by
  let message := (g.atLine entry.line entry.text).message
  have hstop : InStep same base a b { e.report .error message with state := .stopped }
      { f.report .error message with state := .stopped } :=
    { h.report .error message with state := rfl }
  have hclosed : e.desk.closed = e.desk := Files.Desk.closed_of_none h.takes.closed
  have hclosed' : f.desk.closed = f.desk := Files.Desk.closed_of_none h.taken.closed
  rw [stopOn_eq, stopOn_eq, hclosed, hclosed']
  exact hstop

/-- A step does the same to engines in step. -/
theorem step (h : InStep same p.store a b e f) (hp : a.program = p) (hportable : p.Portable same)
    (hconfined : p.isConfined = true) (hclock : same → e.memory.clock = f.memory.clock) :
    e.step.1 = f.step.1 ∧ InStep same p.store a b e.step.2 f.step.2 := by
  refine related_step (S := InStepNow same p.store a b) h h.flow h.finish (fun entry hentry => ?_)
    (fun _ _ m h => h.follow m) fun _ _ entry g h => h.stopOn entry g
  have hmem : entry ∈ p.commands := by
    rw [h.program, hp] at hentry
    exact Array.mem_of_getElem? hentry
  refine paired_execute_confined (hportable.commands entry hmem) (hp ▸ hportable.loops)
    (Array.all_eq_true'.mp hconfined entry hmem) _ _ ?_
  exact { h with clock := hclock }

theorem clocked (h : InStep same base a b e f) (now now' : Moment) :
    InStep same base a b (e.clocked now) (f.clocked now') :=
  { h with }

end InStep

/-! ### Runs -/

/-- The engine runs undisturbed or has stopped. -/
structure Uninterrupted (e : Engine) : Prop extends Undisturbed e where
  state : e.state = .running ∨ e.state = .stopped

theorem Uninterrupted.clocked (h : e.Uninterrupted) (now : Moment) :
    (e.clocked now).Uninterrupted :=
  ⟨⟨h.mailbox, h.breakpoints⟩, h.state⟩

theorem Uninterrupted.finish (h : e.Uninterrupted) : (finish.run e).2.Uninterrupted := by
  obtain ⟨answer, p, log, heq, -⟩ := e.exists_finish
  rw [heq]
  exact ⟨⟨h.mailbox, h.breakpoints⟩, .inr rfl⟩

theorem Uninterrupted.step (h : e.Uninterrupted) (hp : e.program = p)
    (hfits : p.store.Fits e.memory.store) : e.step.2.Uninterrupted := by
  cases hfinished : e.finished with
  | true =>
    rw [step_of_finished hfinished]
    exact h
  | false =>
    cases hentry : e.program.commands[e.next]? with
    | none =>
      rw [step_of_none hfinished hentry]
      exact h.finish
    | some entry =>
      have hexecuted := step_executed hp hfits hfinished hentry
      refine ⟨h.toUndisturbed.executed hexecuted, ?_⟩
      rcases hexecuted.state with ⟨-, hsame⟩ | ⟨hstopped, -⟩
      · exact hsame ▸ h.state
      · exact .inr hstopped

theorem Uninterrupted.turn (h : e.Uninterrupted) (hp : e.program = p)
    (hfits : p.store.Fits e.memory.store) : e.turn.2.Uninterrupted := by
  have hstep := h.step hp hfits
  unfold Engine.turn
  dsimp only
  rw [h.drained_eq, h.breakpointLine?_eq]
  rcases h.state with hrunning | hstopped
  · rw [hrunning]
    unfold executeTurn
    rw [hrunning]
    revert hstep
    rcases e.step with ⟨g | _, e'⟩ <;> exact id
  · rw [hstopped]
    exact h

/-- Engines of a program that the relation holds of take the same steps, where their clocks show the
same or `same` does not ask for that, and it holds of them again, whatever the clocks show next. -/
structure StepsAlike (same : Prop) (p : Program) (R : Engine → Engine → Prop) : Prop where
  left {e f : Engine} : R e f → e.program = p ∧ p.store.Fits e.memory.store
  right {e f : Engine} : R e f → f.program = p ∧ p.store.Fits f.memory.store
  flow {e f : Engine} : R e f → e.flow = f.flow
  state {e f : Engine} : R e f → e.state = f.state
  clocked {e f : Engine} (now now' : Moment) : R e f → R (e.clocked now) (f.clocked now')
  step {e f : Engine} : R e f → (same → e.memory.clock = f.memory.clock) →
    e.step.1 = f.step.1 ∧ R e.step.2 f.step.2

theorem InStep.stepsAlike (hp : a.program = p) (hportable : p.Portable same)
    (hconfined : p.isConfined = true) : StepsAlike same p (InStep same p.store a b) where
  left h := ⟨h.program.trans hp, h.fits⟩
  right h := ⟨h.program_right.trans hp, h.fits_right⟩
  flow h := h.flow
  state h := h.state
  clocked now now' h := h.clocked now now'
  step h hclock := h.step hp hportable hconfined hclock

/-- A turn does the same to the engines if they run undisturbed or have stopped. -/
theorem StepsAlike.turn {R : Engine → Engine → Prop} (hR : StepsAlike same p R) (h : R e f)
    (hclock : same → e.memory.clock = f.memory.clock) (he : e.Uninterrupted)
    (hf : f.Uninterrupted) :
    e.turn.1 = f.turn.1 ∧ R e.turn.2 f.turn.2 ∧ e.executing?.isSome = f.executing?.isSome := by
  have hflow := hR.flow h
  have hfinished : e.finished = f.finished := congrArg Flow.finished hflow
  have hnext : e.program.commands[e.next]? = f.program.commands[f.next]? :=
    congrArg (fun x : Flow => x.program.commands[x.next]?) hflow
  unfold Engine.turn executing?
  dsimp only
  rw [he.drained_eq, hf.drained_eq, he.breakpointLine?_eq, hf.breakpointLine?_eq, ← hR.state h,
    hfinished, hnext]
  rcases he.state with hrunning | hstopped
  · rw [hrunning]
    refine and_assoc.mp ⟨?_, rfl⟩
    obtain ⟨hanswer, hafter⟩ := hR.step h hclock
    unfold executeTurn
    rw [← hR.state h, hrunning]
    revert hanswer hafter
    rcases e.step with ⟨g | _, e'⟩ <;> rcases f.step with ⟨g' | _, f'⟩ <;>
      intro hanswer hafter <;> cases hanswer
    · exact ⟨rfl, hafter⟩
    · exact ⟨rfl, hafter⟩
  · rw [hstopped]
    exact ⟨rfl, h, rfl⟩

/-! ### What a reset goes back to -/

/-- The engines that an engine can be brought to: it executes commands, takes turns and is steered,
and it may be given a mailbox and the time of day. -/
inductive Onward (e : Engine) : Engine → Prop where
  | refl : Onward e e
  | step {f : Engine} : Onward e f → Onward e f.step.2
  | turn {f : Engine} : Onward e f → Onward e f.turn.2
  | control {f : Engine} (c : Control) : Onward e f → Onward e (f.control c)
  | mailbox {f : Engine} (waiting : List Control) : Onward e f → Onward e (f.withMailbox waiting)
  | clock {f : Engine} (now : Moment) : Onward e f → Onward e (f.clocked now)

theorem Onward.visits (h : Onward e f) (he : Visits p e) : Visits p f := by
  induction h with
  | refl => exact he
  | step _ ih => exact ih.step
  | turn _ ih => exact ih.turn
  | control c _ ih => exact ih.control c
  | mailbox waiting _ ih => exact ih.mailbox waiting
  | clock now _ ih => exact ih.clock now

/-- A schedule brings an engine onward. -/
theorem Onward.after {x : Execution} (h : Onward e x.engine) (times : Nat → Moment)
    (σ : List Happening) : Onward e (x.after times σ).engine := by
  refine after_induction (motive := fun x => Onward e x.engine) h fun x hx happening _ => ?_
  cases happening with
  | control c => exact hx.control c
  | mailbox waiting => exact hx.mailbox waiting
  | turn => exact (engine_act_turn x).symm ▸ (hx.clock _).turn

namespace Rooted

theorem refl (h : e.papers.Takes) : e.Rooted e := ⟨rfl, rfl, rfl, rfl, h⟩

theorem trans {g : Engine} (h : e.Rooted f) (h' : f.Rooted g) : e.Rooted g :=
  ⟨h'.program.trans h.program, h'.initial.trans h.initial, h'.root.trans h.root, h'.draw.trans h.draw,
    h'.takes⟩

end Rooted

/-- Where no file is open, a reset gives no warning. -/
theorem reset_of_takes (h : e.papers.Takes) : e.reset =
    ({ e.rewound with
      desk := { e.desk with base := e.base }
      finished := false
      skipBreakpoint := false
      state := if e.state = RunState.paused then .paused else .running } : Engine).report .program
        "reset" := by
  have hpapers : e.rewound.papers.Takes := h
  have hclosed : e.rewound.closeOrWarn = e.rewound := by
    unfold closeOrWarn closeFile
    rw [run_onPapers, hpapers.run_closeFile]
    rfl
  unfold reset
  rw [hclosed]
  rfl

theorem rooted_reset (h : e.papers.Takes) : e.Rooted e.reset := by
  rw [reset_of_takes h]
  exact ⟨rfl, rfl, rfl, rfl, h.closed, h.takes⟩

theorem rooted_control (h : e.papers.Takes) (c : Control) : e.Rooted (e.control c) := by
  unfold control
  cases c with
  | run | resume | step | pause =>
    dsimp only
    split <;> exact ⟨rfl, rfl, rfl, rfl, h⟩
  | stop | breakpoint line => exact ⟨rfl, rfl, rfl, rfl, h⟩
  | reset =>
    have hreported : e.Rooted (e.report .program s!"{Control.reset} received while {e.state}") :=
      ⟨rfl, rfl, rfl, rfl, h⟩
    exact hreported.trans (rooted_reset h)

theorem rooted_drained (h : e.papers.Takes) : e.Rooted e.drained :=
  drained_induction (motive := e.Rooted) (.refl h)
    (fun _ h => ⟨h.program, h.initial, h.root, h.draw, h.takes⟩)
    fun _ c h => h.trans (rooted_control h.takes c)

/-- An engine is in step with itself. -/
theorem InStep.refl (same : Prop) (h : base.Fits e.memory.store) (htakes : e.papers.Takes) :
    InStep same base e e e e where
  program := rfl
  initial := rfl
  root := rfl
  draw := rfl
  takes := htakes
  taken := htakes
  drawn := rfl
  fits := h
  store := .refl same _
  flow := rfl
  state := rfl
  output := rfl
  directory := rfl
  warned := ⟨[], (List.append_nil _).symm, (List.append_nil _).symm⟩

theorem rooted_step (hp : e.program = p) (hfits : p.store.Fits e.memory.store)
    (hconfined : p.isConfined = true) (htakes : e.papers.Takes) : e.Rooted e.step.2 :=
  ((InStep.refl True hfits htakes).step hp (Program.portable (.inl trivial)) hconfined
    fun _ => rfl).2.toRooted

section Compiled

variable {settings : Settings} {script : String} {log : Log}
  (hp : (Script.compile settings script log).1 = .ok p)

include hp

theorem rooted_turn (h : Visits p e) (hconfined : p.isConfined = true) (htakes : e.papers.Takes) :
    e.Rooted e.turn.2 := by
  have hsteady := (h.steady hp).drained (Script.isNested_of_compile hp)
  have hdrained := rooted_drained htakes
  rcases e.turn_cases with ⟨outcome, state, log, hturn, -⟩ | ⟨outcome, state, hturn, -⟩ <;>
    rw [hturn]
  · exact ⟨hdrained.program, hdrained.initial, hdrained.root, hdrained.draw, hdrained.takes⟩
  · have hstep := hdrained.trans
      (rooted_step hsteady.program hsteady.holds.memory hconfined hdrained.takes)
    exact ⟨hstep.program, hstep.initial, hstep.root, hstep.draw, hstep.takes⟩

/-- Whatever is done with an engine, a reset goes back to the same. -/
theorem Onward.rooted (h : Onward e f) (he : Visits p e) (hconfined : p.isConfined = true)
    (htakes : e.papers.Takes) : e.Rooted f := by
  induction h with
  | refl => exact .refl htakes
  | @step f h ih =>
    have hsteady := (h.visits he).steady hp
    exact ih.trans (rooted_step hsteady.program hsteady.holds.memory hconfined ih.takes)
  | turn h ih => exact ih.trans (rooted_turn hp (h.visits he) hconfined ih.takes)
  | control c _ ih => exact ih.trans (rooted_control ih.takes c)
  | mailbox waiting _ ih => exact ⟨ih.program, ih.initial, ih.root, ih.draw, ih.takes⟩
  | clock now _ ih => exact ⟨ih.program, ih.initial, ih.root, ih.draw, ih.takes⟩

omit hp

theorem base_of_prepare {settings : Settings} (h : Gives (prepare settings) e () f) :
    f.desk.base = f.base := by
  have rest {e : Engine} (h : Gives (do
      applyOptions (← get).program.startup
      modify fun e => { e with base := e.desk.base } : EngineM Unit) e () f) :
      f.desk.base = f.base := by
    simp only [gives_bind, gives_get, gives_modify] at h
    obtain ⟨_, _, -, _, e', -, rfl⟩ := h
    rfl
  unfold prepare at h
  rcases gives_ite.mp h with ⟨-, h⟩ | ⟨-, h⟩
  · obtain ⟨_, e', -, h⟩ := gives_bind.mp h
    exact rest h
  · exact rest h

/-- An engine at the beginning of a program is as a reset would leave it. -/
theorem Fresh.unused (h : Fresh p e) :
    e.memory.store = e.initial ∧ e.output = #[] ∧ e.desk.opened = none ∧ e.desk.base = e.base := by
  induction h with
  | @prepared settings log clock draw tree scan e h =>
    have hpasses : PassesOptions fun e : Engine =>
        e.memory.store = e.initial ∧ e.output = #[] ∧ e.desk.opened = none :=
      fun _ _ _ _ _ hsame he => ⟨he.1, he.2.1, hsame.trans he.2.2⟩
    have hstays := (stays_prepare (p := True) hpasses settings).of_gives ⟨rfl, rfl, rfl⟩ h
    exact ⟨hstays.1.1, hstays.1.2.1, hstays.1.2.2, base_of_prepare h⟩
  | seeded seed _ ih =>
    exact ⟨congrArg (fun s : Store => { s with cells := s.cells.seeded seed }) ih.1, ih.2⟩

/-- The output is not copied to a full device. -/
def HasRoom (e : Engine) : Prop :=
  ∀ handle, e.copy = some handle → handle.full = false

theorem Fresh.takes (h : Fresh p e) (hroom : e.HasRoom) : e.papers.Takes :=
  ⟨h.unused.2.2.1, hroom⟩

/-- Behind a reset an engine is in step with the one that it was in the beginning. -/
theorem inStep_reset (hp : (Script.compile settings script log).1 = .ok p) (he : Fresh p e)
    (hroom : e.HasRoom) (hconfined : p.isConfined = true) (hf : Onward e f) (hpaused : f.state ≠ .paused)
    (same : Prop) : InStep same p.store e f e f.reset := by
  have hsteady := he.visits.steady hp
  have hrooted := hf.rooted hp he.visits hconfined (he.takes hroom)
  have hreset := hrooted.trans (rooted_reset hrooted.takes)
  obtain ⟨hstore, houtput, -, hbase⟩ := he.unused
  rw [reset_of_takes hrooted.takes] at hreset ⊢
  have hinitial : e.memory.store = f.initial := hstore.trans hrooted.initial.symm
  refine ⟨.refl (he.takes hroom), hreset.takes, hreset.draw.symm, hsteady.holds.memory,
    hinitial ▸ .refl same _, ?flow, ?state, houtput, hbase.trans hrooted.root.symm, [],
    (List.append_nil _).symm, warnings_report _ _ _⟩
  case flow =>
    rw [he.flow, ← hsteady.program, ← hrooted.program]
    rfl
  case state => exact ((he.undisturbed hp).2).trans (if_neg hpaused).symm

end Compiled

end Engine

namespace Execution

open Engine

variable {R : Engine → Engine → Prop} {p : Program} {x y : Execution} {times times' : Nat → Moment}

/-- Executions whose engines are related, and which have executed as many commands. -/
structure Matched (R : Engine → Engine → Prop) (x y : Execution) : Prop where
  engines : R x.engine y.engine
  executed : x.executed = y.executed
  left : x.engine.Uninterrupted
  right : y.engine.Uninterrupted

/-- A turn does the same to both executions. -/
theorem Matched.turn (h : Matched R x y) (hR : StepsAlike (times = times') p R) :
    (x.poised times).turn.1 = (y.poised times').turn.1 ∧
      Matched R (x.act times .turn) (y.act times' .turn) := by
  have hposed : R (x.poised times) (y.poised times') := hR.clocked _ _ h.engines
  have hleft : (x.poised times).Uninterrupted := h.left.clocked _
  have hright : (y.poised times').Uninterrupted := h.right.clocked _
  have hclock (hsame : times = times') :
      (x.poised times).memory.clock = (y.poised times').memory.clock :=
    (congr hsame h.executed : times x.executed = times' y.executed)
  obtain ⟨houtcome, hengines, hexecuting⟩ := hR.turn hposed hclock hleft hright
  obtain ⟨hp, hfits⟩ := hR.left hposed
  obtain ⟨hp', hfits'⟩ := hR.right hposed
  refine ⟨houtcome, ?_, ?_, ?_, ?_⟩
  · rw [engine_act_turn, engine_act_turn]
    exact hengines
  · rw [executed_act_turn, executed_act_turn, hexecuting, h.executed]
  · rw [engine_act_turn]
    exact hleft.turn hp hfits
  · rw [engine_act_turn]
    exact hright.turn hp' hfits'

/-- As many turns come to the same outcome in both executions, and to engines that are related. -/
theorem Matched.run (h : Matched R x y) (hR : StepsAlike (times = times') p R) (turns : Nat) :
    (Execution.run times turns x).1 = (Execution.run times' turns y).1 ∧
      Matched R (Execution.run times turns x).2 (Execution.run times' turns y).2 := by
  induction turns generalizing x y with
  | zero => exact ⟨rfl, h⟩
  | succ turns ih =>
    obtain ⟨houtcome, hbehind⟩ := h.turn hR
    cases hturn : (x.poised times).turn.1 with
    | some outcome =>
      rw [run_of_outcome hturn, run_of_outcome (houtcome.symm.trans hturn)]
      exact ⟨rfl, hbehind⟩
    | none =>
      rw [run_of_none hturn, run_of_none (houtcome.symm.trans hturn)]
      exact ih hbehind

variable {settings : Settings} {script : String} {log : Log} {e f g : Engine}

/-- Two runs, of engines that were `e` and `f`, come to the same outcome or fault, with as many
commands executed, the same data, the same base directory and the same warnings given. -/
structure SameCourse (e f : Engine) (x y : Option (Checked RunOutcome) × Execution) : Prop where
  outcome : x.1 = y.1
  executed : x.2.executed = y.2.executed
  data : SameData x.2.engine y.2.engine
  directory : x.2.engine.desk.base = y.2.engine.desk.base
  warned : ∃ given, x.2.engine.warnings = e.warnings ++ given ∧
    y.2.engine.warnings = f.warnings ++ given

theorem SameCourse.trans {x y z : Option (Checked RunOutcome) × Execution}
    (h : SameCourse e f x y) (h' : SameCourse f g y z) : SameCourse e g x z where
  outcome := h.outcome.trans h'.outcome
  executed := h.executed.trans h'.executed
  data := h.data.trans h'.data
  directory := h.directory.trans h'.directory
  warned := by
    obtain ⟨given, hx, hy⟩ := h.warned
    obtain ⟨given', hy', hz⟩ := h'.warned
    obtain rfl : given = given' := List.append_cancel_left (hy.symm.trans hy')
    exact ⟨given, hx, hz⟩

/-- Behind a reset an execution takes the course of the one in the beginning. -/
theorem sameCourse_reset (hp : (Script.compile settings script log).1 = .ok p) (he : Fresh p e)
    (hroom : e.HasRoom) (hconfined : p.isConfined = true) (hf : Onward e f) (hpaused : f.state ≠ .paused)
    (hundisturbed : f.Undisturbed) (hportable : p.Portable (times = times')) (turns : Nat) :
    SameCourse e f (run times turns { engine := e }) (run times' turns { engine := f.reset }) ∧
      (run times turns { engine := e }).2.engine.memory.store.Alike (times = times')
        (run times' turns { engine := f.reset }).2.engine.memory.store := by
  obtain ⟨hfresh, hrunning⟩ := he.undisturbed hp
  have hreset : f.reset.Uninterrupted := by
    obtain ⟨log, heq⟩ := f.exists_reset
    rw [heq]
    exact ⟨⟨hundisturbed.mailbox, hundisturbed.breakpoints⟩, .inl (if_neg hpaused)⟩
  have hmatched : Matched (InStep (times = times') p.store e f) { engine := e }
      { engine := f.reset } :=
    ⟨inStep_reset hp he hroom hconfined hf hpaused _, rfl, ⟨hfresh, .inl hrunning⟩, hreset⟩
  have hR := InStep.stepsAlike (b := f) (he.visits.steady hp).program hportable hconfined
  obtain ⟨houtcome, hbehind⟩ := hmatched.run hR turns
  have hsame := hbehind.engines
  exact ⟨⟨houtcome, hbehind.executed, hsame.sameData, hsame.directory, hsame.warned⟩, hsame.store⟩

/-- Where a program keeps away from files and its output is not copied to a full device, a reset is a
fresh start, whatever was done with the engine since its beginning `e`, if it is not paused: as many
turns come to the same as in the beginning. Another clock makes no difference to a program that
neither names it nor tests a text, which may hold its name, nor to one that comes to the same by both
clocks in the beginning. -/
theorem same_of_reset (hp : (Script.compile settings script log).1 = .ok p) (he : Fresh p e)
    (hroom : e.HasRoom) (hconfined : p.isConfined = true) (hf : Onward e f) (hpaused : f.state ≠ .paused)
    (hundisturbed : f.Undisturbed) (times : Nat → Moment) (turns : Nat) :
    let first (times : Nat → Moment) := run times turns { engine := e }
    let again (times : Nat → Moment) := run times turns { engine := f.reset }
    SameCourse e f (first times) (again times) ∧
      (first times).2.engine.memory.store = (again times).2.engine.memory.store ∧
      ∀ times', (p.ignoresClock = true ∨ SameCourse e e (first times) (first times')) →
        SameCourse e f (first times) (again times') := by
  intro first again
  have hsame (times : Nat → Moment) :=
    sameCourse_reset hp he hroom hconfined hf hpaused hundisturbed (Program.portable (.inl (Eq.refl times)))
      turns
  refine ⟨(hsame times).1, (hsame times).2.eq rfl, fun times' hclock => ?_⟩
  rcases hclock with hclock | hclock
  · exact (sameCourse_reset hp he hroom hconfined hf hpaused hundisturbed (Program.portable (.inr hclock))
      turns).1
  · exact hclock.trans (hsame times').1

/-- A script that adds up dice on a variable that it never set, and then divides by zero. -/
def dice : String :=
  "ALLOCATE GLOBAL Integer n\nRUN -debug 128 -tpath sub\nFOR i = 1 ; < 4\nSET n += $RANDOM % 6\n" ++
    "PRINT $n\nENDFOR\nSET n = 5 / ($n - $n)\n"

/-- Five turns, and then the engine is stopped. -/
def cutShort : List Happening := List.replicate 5 .turn ++ [.control .stop]

/-- The output is copied to a file. -/
def copyingDice : Settings where
  outputFile := "dice.txt"

/-- Stopped within the loop and reset, the engine warns, adds up the same dice and fails as if nothing
had happened. -/
theorem same_of_reset_dice : ∃ (p : Program) (e : Engine),
    (Script.compile copyingDice dice).1 = .ok p ∧ Fresh p e ∧ e.copy.isSome ∧ e.HasRoom ∧
    p.isConfined = true ∧ p.ignoresClock = true ∧
    let f := (Execution.after ticking { engine := e } cutShort).engine
    let first := run ticking 20 { engine := e }
    let again := run (fun _ => .epoch) 20 { engine := f.reset }
    Onward e f ∧ f.state = .stopped ∧ f.Undisturbed ∧ f.loops ≠ [] ∧
      f.memory.store ≠ e.memory.store ∧
      (∃ g, first.1 = some (.error g)) ∧ first.2.engine.output.size = 3 ∧
      first.2.engine.warnings ≠ e.warnings ∧ SameCourse e f first again := by
  obtain ⟨p, e, hp, hready, h⟩ := exists_of_triedOn copyingDice {} dice
    (fun p e =>
      let f := (Execution.after ticking { engine := e } cutShort).engine
      let first := run ticking 20 { engine := e }
      e.copy.isSome && e.copy.all (!·.full) && p.isConfined && p.ignoresClock && f.state == .stopped &&
        f.mailbox == none && f.breakpoints == [] && !f.loops.isEmpty &&
        f.memory.store != e.memory.store && first.1.any (!·.isOk) &&
        first.2.engine.output.size == 3 && first.2.engine.warnings != e.warnings)
    (by decide +kernel)
  simp only [Bool.and_eq_true, beq_iff_eq, bne_iff_ne, Bool.not_eq_true', Option.any_eq_true,
    List.isEmpty_eq_false_iff] at h
  obtain ⟨⟨⟨⟨⟨⟨⟨⟨⟨⟨⟨hcopy, hfull⟩, hconfined⟩, hclock⟩, hstopped⟩, hmailbox⟩, hlines⟩, hloops⟩, hstore⟩,
    houtcome⟩, hprinted⟩, hwarned⟩ := h
  have hfresh : Fresh p e := .prepared hready
  have hroom : e.HasRoom := fun handle hhandle => by
    rw [hhandle] at hfull
    exact (Bool.not_eq_true' _).mp hfull
  have honward : Onward e (Execution.after ticking { engine := e } cutShort).engine :=
    Onward.after (x := { engine := e }) .refl ticking cutShort
  obtain ⟨-, -, hsame⟩ := same_of_reset hp hfresh hroom hconfined honward (by rw [hstopped]; nofun)
    ⟨by rw [hmailbox]; rfl, hlines⟩ ticking 20
  obtain ⟨outcome, houtcome, hfails⟩ := houtcome
  refine ⟨p, e, hp, hfresh, hcopy, hroom, hconfined, hclock, honward, hstopped,
    ⟨by rw [hmailbox]; rfl, hlines⟩, hloops, hstore, ?_, hprinted, hwarned,
    hsame (fun _ => .epoch) (.inl hclock)⟩
  cases outcome with
  | error g => exact ⟨g, houtcome⟩
  | ok _ => cases hfails

/-- A script that prints a text of 4096 characters. -/
def doubling : String :=
  "ALLOCATE GLOBAL String s\nSET s = \"0123456789abcdef\"\nFOR i = 0 ; < 8\nSET s += $s\nENDFOR\n" ++
    "PRINT $s\n"

/-- As many turns as the script needs. -/
def throughout : List Happening := List.replicate 30 .turn

/-- The run ended in a fault, on the line if there is one. -/
def failsOn (line? : Option Nat) : Option (Checked RunOutcome) → Bool
  | some (.error g) => g.line? == line?
  | _ => false

theorem exists_of_failsOn {line? : Option Nat} {outcome : Option (Checked RunOutcome)}
    (h : failsOn line? outcome = true) : ∃ g, outcome = some (.error g) ∧ g.line? = line? := by
  unfold failsOn at h
  split at h
  · exact ⟨_, rfl, beq_iff_eq.mp h⟩
  · cases h

/-- What is printed waits for a device that takes nothing, and a reset lets it wait on. So the first run
meets its fault at the end of the script, and the second one in the line that prints. -/
theorem sooner_of_full : ∃ (p : Program) (e : Engine),
    (Script.compile copying doubling).1 = .ok p ∧ Fresh p e ∧ p.isConfined = true ∧
    p.ignoresClock = true ∧
    let f := (Execution.after ticking { engine := e } throughout).engine
    let first := run ticking 30 { engine := e }
    let again := run ticking 30 { engine := f.reset }
    Onward e f ∧ f.state = .stopped ∧ f.Undisturbed ∧
      (∃ g, first.1 = some (.error g) ∧ g.line? = none) ∧
      (∃ g, again.1 = some (.error g) ∧ g.line? = some 6) ∧ ¬SameCourse e f first again := by
  obtain ⟨p, e, hp, hready, h⟩ := exists_of_triedOn copying clogged doubling
    (fun p e =>
      let f := (Execution.after ticking { engine := e } throughout).engine
      p.isConfined && p.ignoresClock && f.state == .stopped && f.mailbox == none &&
        f.breakpoints == [] && failsOn none (run ticking 30 { engine := e }).1 &&
        failsOn (some 6) (run ticking 30 { engine := f.reset }).1)
    (by decide +kernel)
  simp only [Bool.and_eq_true, beq_iff_eq] at h
  obtain ⟨⟨⟨⟨⟨⟨hconfined, hclock⟩, hstopped⟩, hmailbox⟩, hlines⟩, hfirst⟩, hagain⟩ := h
  obtain ⟨g, hfirst, hnone⟩ := exists_of_failsOn hfirst
  obtain ⟨g', hagain, hline⟩ := exists_of_failsOn hagain
  refine ⟨p, e, hp, .prepared hready, hconfined, hclock,
    Onward.after (x := { engine := e }) .refl ticking throughout, hstopped,
    ⟨by rw [hmailbox]; rfl, hlines⟩, ⟨g, hfirst, hnone⟩, ⟨g', hagain, hline⟩, fun hsame => ?_⟩
  have hfault : g = g' := by
    have houtcome := hsame.outcome
    rw [hfirst, hagain] at houtcome
    cases houtcome
    rfl
  rw [hfault, hline] at hnone
  cases hnone

end Execution

end CommandScript
