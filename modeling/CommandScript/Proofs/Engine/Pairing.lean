import CommandScript.Proofs.Engine.Confined
import CommandScript.Proofs.Engine.Twins

/-!
# Commands on twins

A command that may be run in memories alike does the same to twins: it ends alike, and the engines
are twins behind it (`paired_execute`). So a step, too, keeps twins twins (`Twins.step`). It steers
the engine only in that it may stop it and that no pause is skipped any more (`step_executed`).
-/

namespace CommandScript.Engine

variable {same : Prop} {base : Store} {a b : Engine} {α β : Type}

/-! ### Options -/

theorem paired_applyOption (o : ScriptOption) :
    Paired (TwinsSince same base a b) (applyOption o) := by
  cases o with
  | debug mask => exact Likeness.option rfl
  | testPath directory => exact Likeness.option rfl
  | outputFile path => exact (paired_onPapers _).bind fun _ => paired_report _ _

theorem paired_prepare (settings : Settings) :
    Paired (TwinsSince same base a b) (prepare settings) := by
  have rest : Paired (TwinsSince same base a b) (do
      applyOptions (← get).program.startup
      modify fun e => { e with base := e.desk.base } : EngineM Unit) := by
    refine couples_get_bind fun e f hef => ?_
    rw [hef.program_eq]
    exact (paired_applyOptions fun o _ => paired_applyOption o).bind fun _ =>
      paired_modify (fun _ _ h => h.memory) (fun _ => rfl) fun _ => ⟨rfl, rfl, List.prefix_rfl⟩
  exact couples_ite (fun _ => (paired_applyOption _).bind fun _ => rest) fun _ => rest

theorem paired_execute {entry : Entry} (h : entry.command.Portable same base)
    (hloops : ∀ id loop, a.program.loops.loop id = .ok loop →
      ∀ r ∈ loop.references, same ∨ r.showsClock = false) :
    Paired (TwinsSince same base a b) (execute entry) := by
  cases hs : entry.command.steers with
  | true => exact paired_execute_steering h hs hloops
  | false =>
    exact paired_execute_plain h hs (fun _ _ => paired_applyOptions fun o _ => paired_applyOption o)
      fun _ => paired_fileCommand (fun hef => hef.desk_eq) (fun hef => hef.scan_eq) paired_onDesk
        paired_onCells (fun _ ha => paired_text (h.argument ha)) fun _ hg => paired_number (h.formula hg)

/-! ### Steps -/

section Steps

variable {e f : Engine}

/-- The end of the program does the same to twins. -/
theorem Twins.finish (h : Twins same base e f) : (finish.run e).1 = (finish.run f).1 ∧
    Twins same base (finish.run e).2 (finish.run f).2 := by
  have hended (p : Files.Papers) : (e.ended p).progress = (f.ended p).progress :=
    (congrArg (fun e : Engine => (e.ended p).progress) h.progress :)
  rw [run_finish, run_finish, h.papers_eq]
  rcases Files.Papers.settle.run f.papers with ⟨g | u, p⟩
  · exact ⟨rfl, h.memory, hended p⟩
  · exact ⟨rfl, ⟨h.memory.store, h.memory.fits, h.memory.clock, h.memory.draw⟩, hended p⟩

theorem Twins.follow (h : Twins same base e f) (m : Move) :
    ((follow m).run e).1 = ((follow m).run f).1 ∧
      Twins same base ((follow m).run e).2 ((follow m).run f).2 := by
  cases m with
  | next =>
    refine ⟨rfl, h.memory, ?_⟩
    exact congrArg (fun e : Engine => { e with next := e.next + 1 }) h.progress
  | jump target =>
    exact ⟨rfl, h.memory, congrArg (fun e : Engine => { e with next := target }) h.progress⟩
  | exit => exact h.finish

theorem Twins.stopOn (h : Twins same base e f) (entry : Entry) (g : Fault) :
    Twins same base (e.stopOn entry g).2 (f.stopOn entry g).2 := by
  rw [stopOn_eq, stopOn_eq]
  exact ⟨⟨h.memory.store, h.memory.fits, h.memory.clock, h.memory.draw⟩,
    congrArg (fun e : Engine => { e with desk := e.desk.closed }) h.progress⟩

/-- What a step makes of the outcome of its command. -/
def settle (entry : Entry) : Checked Move × Engine → Checked Unit × Engine
  | (.ok m, e) => (follow m).run e
  | (.error g, e) => (.error (e.stopOn entry g).1, (e.stopOn entry g).2)

theorem step_eq_settle {entry : Entry} (hfinished : e.finished = false)
    (hentry : e.program.commands[e.next]? = some entry) :
    e.step = settle entry ((Engine.execute entry).run { e with skipBreakpoint := false }) := by
  unfold Engine.step
  rw [if_neg (by rw [hfinished]; nofun), hentry]
  dsimp only
  rcases (Engine.execute entry).run { e with skipBreakpoint := false } with ⟨g | m, e'⟩
  · rfl
  · rfl

theorem step_of_finished (h : e.finished = true) : e.step = (.ok (), e) :=
  if_pos h

theorem step_of_none (hfinished : e.finished = false)
    (hnone : e.program.commands[e.next]? = none) : e.step = finish.run e := by
  unfold Engine.step
  rw [if_neg (by rw [hfinished]; nofun), hnone]

/-- A step does the same to engines that have come to the same place and stay related by what their
command does and by what the step makes of its outcome. -/
theorem related_step {R S : Engine → Engine → Prop} (h : R e f) (hflow : e.flow = f.flow)
    (hfinish : (finish.run e).1 = (finish.run f).1 ∧ R (finish.run e).2 (finish.run f).2)
    (hexecute : ∀ entry, e.program.commands[e.next]? = some entry →
      ((Engine.execute entry).run { e with skipBreakpoint := false }).1 =
        ((Engine.execute entry).run { f with skipBreakpoint := false }).1 ∧
      S ((Engine.execute entry).run { e with skipBreakpoint := false }).2
        ((Engine.execute entry).run { f with skipBreakpoint := false }).2)
    (hfollow : ∀ e f m, S e f → ((follow m).run e).1 = ((follow m).run f).1 ∧
      R ((follow m).run e).2 ((follow m).run f).2)
    (hstop : ∀ e f entry g, S e f → R (e.stopOn entry g).2 (f.stopOn entry g).2) :
    e.step.1 = f.step.1 ∧ R e.step.2 f.step.2 := by
  have hfinished' : e.finished = f.finished := congrArg Flow.finished hflow
  have hnext : f.program.commands[f.next]? = e.program.commands[e.next]? :=
    congrArg (fun x : Flow => x.program.commands[x.next]?) hflow.symm
  cases hfinished : e.finished with
  | true =>
    rw [step_of_finished hfinished, step_of_finished (hfinished' ▸ hfinished)]
    exact ⟨rfl, h⟩
  | false =>
    rw [hfinished] at hfinished'
    cases hentry : e.program.commands[e.next]? with
    | none =>
      rw [step_of_none hfinished hentry, step_of_none hfinished'.symm (hnext.trans hentry)]
      exact hfinish
    | some entry =>
      obtain ⟨hvalue, hafter⟩ := hexecute entry hentry
      rw [step_eq_settle hfinished hentry, step_eq_settle hfinished'.symm (hnext.trans hentry)]
      revert hvalue hafter
      rcases (Engine.execute entry).run { e with skipBreakpoint := false } with ⟨g | m, e'⟩ <;>
        rcases (Engine.execute entry).run { f with skipBreakpoint := false } with ⟨g' | m', f'⟩ <;>
        intro hvalue hafter <;> cases hvalue
      · exact ⟨rfl, hstop _ _ entry g hafter⟩
      · exact hfollow _ _ m hafter

/-- The next command of a program whose commands may be run in memories alike does the same to
twins. -/
theorem Twins.execute {p : Program} (h : Twins same p.store e f) (hp : e.program = p)
    (hportable : p.Portable same) {entry : Entry}
    (hentry : e.program.commands[e.next]? = some entry) :
    ((execute entry).run { e with skipBreakpoint := false }).1 =
      ((execute entry).run { f with skipBreakpoint := false }).1 ∧
      TwinsSince same p.store { e with skipBreakpoint := false } { f with skipBreakpoint := false }
        ((execute entry).run { e with skipBreakpoint := false }).2
        ((execute entry).run { f with skipBreakpoint := false }).2 := by
  refine paired_execute (hportable.commands entry ?_) (fun id loop hloop => ?_) _ _
    ⟨⟨h.memory, h.progress⟩, .refl _, .refl _⟩
  · rw [hp] at hentry
    exact Array.mem_of_getElem? hentry
  · exact hportable.loops id loop (hp ▸ hloop)

/-- A step does the same to twins. -/
theorem Twins.step {p : Program} (h : Twins same p.store e f) (hp : e.program = p)
    (hportable : p.Portable same) : e.step.1 = f.step.1 ∧ Twins same p.store e.step.2 f.step.2 :=
  related_step h (congrArg Engine.flow h.progress :) h.finish
    (fun _ hentry => (h.execute hp hportable hentry).imp_right TwinsSince.toTwins)
    (fun _ _ m h => h.follow m) fun _ _ entry g h => h.stopOn entry g

/-- What a command does to how its engine is steered, and to the output: `f` is `e` behind the step
of a command. -/
structure Executed (e : Engine) (answer : Checked Unit) (f : Engine) : Prop where
  program : f.program = e.program
  mailbox : f.mailbox = e.mailbox
  breakpoints : f.breakpoints = e.breakpoints
  skipBreakpoint : f.skipBreakpoint = false
  printed : e.output.toList <+: f.output.toList
  /-- A fault and the end of the program stop the engine, and nothing else does. -/
  state : answer = .ok () ∧ f.state = e.state ∨
    f.state = .stopped ∧ (answer = .ok () → f.finished = true)

theorem Continues.executed {e' : Engine}
    (h : Continues { e with skipBreakpoint := false } e') {entry : Entry} {answer : Checked Move} :
    Executed e (settle entry (answer, e')).1 (settle entry (answer, e')).2 := by
  have hstate : e'.state = e.state := (congrArg Steering.state h.steering :)
  have hmailbox : e'.mailbox = e.mailbox := (congrArg Steering.mailbox h.steering :)
  have hlines : e'.breakpoints = e.breakpoints := (congrArg Steering.breakpoints h.steering :)
  have hskip : e'.skipBreakpoint = false := (congrArg Steering.skipBreakpoint h.steering :)
  rcases answer with g | m
  · exact ⟨h.program, hmailbox, hlines, hskip, h.printed, .inr ⟨rfl, nofun⟩⟩
  · cases m with
    | next => exact ⟨h.program, hmailbox, hlines, hskip, h.printed, .inl ⟨rfl, hstate⟩⟩
    | jump target => exact ⟨h.program, hmailbox, hlines, hskip, h.printed, .inl ⟨rfl, hstate⟩⟩
    | exit =>
      obtain ⟨answer, p, log, heq, -⟩ := e'.exists_finish
      have hsettle : settle entry (.ok .exit, e') = finish.run e' := rfl
      rw [hsettle, heq]
      exact ⟨h.program, hmailbox, hlines, hskip, h.printed, .inr ⟨rfl, fun _ => rfl⟩⟩

/-- A command leaves the steering alone, but that the engine stops where the program ends or
fails. -/
theorem step_executed {p : Program} (hp : e.program = p) (hfits : p.store.Fits e.memory.store)
    {entry : Entry} (hfinished : e.finished = false)
    (hentry : e.program.commands[e.next]? = some entry) : Executed e e.step.1 e.step.2 := by
  have hself : Twins True p.store e e := ⟨⟨.refl _ _, hfits, fun _ => rfl, rfl⟩, rfl⟩
  obtain ⟨-, hafter⟩ := hself.execute hp (Program.portable (.inl trivial)) hentry
  rw [step_eq_settle hfinished hentry]
  exact hafter.left.executed

theorem program_step {p : Program} (hp : e.program = p) (hfits : p.store.Fits e.memory.store) :
    e.step.2.program = p := by
  cases hfinished : e.finished with
  | true => rwa [step_of_finished hfinished]
  | false =>
    cases hentry : e.program.commands[e.next]? with
    | none =>
      rw [step_of_none hfinished hentry]
      exact (congrArg Flow.program (flow_finish e)).trans hp
    | some entry => exact (step_executed hp hfits hfinished hentry).program.trans hp

end Steps

end CommandScript.Engine
