import CommandScript.Proofs.Engine.Schedule

/-!
# Steering does not touch the data

What an engine has come to depends on how many commands it has executed and on nothing else that a
schedule without resets does. Each execution is compared with the bare steps of its engine
(`steps`): it stays abreast of as many steps as it has executed commands (`Traces`).
-/

namespace CommandScript

open Execution

namespace Engine

/-- An engine at the beginning of a program. -/
inductive Fresh (p : Program) : Engine → Prop where
  | prepared {settings : Settings} {log : Log} {clock : Moment} {draw : Generator → Nat → Nat}
      {tree : Files.Tree} {scan : String → Checked String} {e : Engine} :
      (prepare settings).run (ofProgram p settings log clock draw tree scan) = (.ok (), e) → Fresh p e
  | seeded {e : Engine} (seed : UInt64) : Fresh p e → Fresh p (e.seeded seed)

variable {p : Program} {e f g : Engine} {same : Prop}

theorem Fresh.visits (h : Fresh p e) : Visits p e := by
  induction h with
  | prepared h => exact .start h
  | seeded seed _ ih => exact ih.seeded seed

/-- In the beginning nothing has been steered. -/
theorem Fresh.steering (hfits : p.store.Fits p.store) (h : Fresh p e) :
    e.steering = ⟨.running, none, [], false⟩ := by
  induction h with
  | @prepared settings log clock draw tree scan e h =>
    let start := ofProgram p settings log clock draw tree scan
    have hself : TwinsSince True p.store start start start start :=
      ⟨⟨⟨.refl _ _, hfits, fun _ => rfl, rfl⟩, rfl⟩, .refl _, .refl _⟩
    obtain ⟨_, h', hsince⟩ := Couples.of_gives (paired_prepare settings) hself h
    exact hsince.left.steering
  | seeded seed _ ih => exact ih

/-! ### Abreast -/

/-- The engines have come to the same place of the program, with stores that are alike. -/
structure Abreast (same : Prop) (p : Program) (e f : Engine) : Prop where
  program : e.program = p
  fits : p.store.Fits e.memory.store
  store : e.memory.store.Alike same f.memory.store
  progress : e.progress = f.progress

namespace Abreast

theorem unmoved_left (h : Abreast same p e f) (hu : e.Unmoved g) : Abreast same p g f :=
  ⟨hu.program_eq.trans h.program, hu.store ▸ h.fits, hu.store ▸ h.store,
    hu.progress.trans h.progress⟩

theorem unmoved_right (h : Abreast same p e f) (hu : f.Unmoved g) : Abreast same p e g :=
  ⟨h.program, h.fits, hu.store ▸ h.store, h.progress.trans hu.progress.symm⟩

theorem twins (h : Abreast same p e f) (hclock : same → e.memory.clock = f.memory.clock) :
    Twins same p.store e f :=
  ⟨⟨h.store, h.fits, hclock, (congrArg (·.memory.draw) h.progress :)⟩, h.progress⟩

theorem step (h : Abreast same p e f) (hclock : same → e.memory.clock = f.memory.clock)
    (hportable : p.Portable same) :
    e.step.1 = f.step.1 ∧ Abreast same p e.step.2 f.step.2 := by
  obtain ⟨hanswer, hafter⟩ := (h.twins hclock).step h.program hportable
  exact ⟨hanswer, program_step h.program h.fits, hafter.memory.fits, hafter.memory.store,
    hafter.progress⟩

end Abreast

/-! ### Bare steps -/

/-- The engine behind its first `n` steps, the clock showing `times k` at step number `k`. -/
def steps (times : Nat → Moment) (e : Engine) : Nat → Engine
  | 0 => e
  | n + 1 => ((steps times e n).clocked (times n)).step.2

/-- The answer of step number `n`. -/
def answerAt (times : Nat → Moment) (e : Engine) (n : Nat) : Checked Unit :=
  ((steps times e n).clocked (times n)).step.1

/-- As many steps come to the same place, under one clock to the same variables, too. -/
theorem steps_abreast {times times' : Nat → Moment} (hp : e.program = p)
    (hfits : p.store.Fits e.memory.store) (hportable : p.Portable (times = times')) (n : Nat) :
    Abreast (times = times') p (steps times e n) (steps times' e n) := by
  induction n with
  | zero => exact ⟨hp, hfits, .refl _ _, rfl⟩
  | succ n ih =>
    have hclocked := (ih.unmoved_left (unmoved_clocked _ (times n))).unmoved_right
      (unmoved_clocked _ (times' n))
    exact (hclocked.step (fun hsame => congrFun hsame n) hportable).2

/-! ### What an execution keeps -/

theorem Visits.next_lt {settings : Settings} {script : String} {log : Log}
    (hp : (Script.compile settings script log).1 = .ok p) (h : Visits p e) :
    e.drained.next < e.drained.program.size :=
  ((h.steady hp).drained (Script.isNested_of_compile hp)).flow.settled.next_lt

/-- What the command that comes next does to the engine of a program. -/
theorem Visits.executed {settings : Settings} {script : String} {log : Log}
    (hp : (Script.compile settings script log).1 = .ok p) (h : Visits p e)
    (hfinished : e.drained.finished = false) {entry : Entry}
    (hentry : e.drained.program.commands[e.drained.next]? = some entry) :
    Executed e.drained e.drained.step.1 e.drained.step.2 := by
  have hsteady := (h.steady hp).drained (Script.isNested_of_compile hp)
  exact step_executed hsteady.program hsteady.holds.memory hfinished hentry

theorem clock_control (e : Engine) (c : Control) : (e.control c).memory.clock = e.memory.clock := by
  unfold control
  cases c with
  | run | resume | step | pause =>
    dsimp only
    split <;> rfl
  | stop | breakpoint line => rfl
  | reset =>
    dsimp only
    obtain ⟨log, heq⟩ :=
      (e.report .program s!"{Control.reset} received while {e.state}").exists_reset
    rw [heq]
    rfl

theorem clock_drained (e : Engine) : e.drained.memory.clock = e.memory.clock :=
  drained_induction (motive := fun f => f.memory.clock = e.memory.clock) rfl (fun _ h => h)
    fun f c h => (f.clock_control c).trans h

/-- Only a reset starts an engine that is stopped. -/
theorem state_control_of_stopped {c : Control} (hc : c ≠ .reset) (h : e.state = .stopped) :
    (e.control c).state = .stopped := by
  unfold control
  cases c with
  | run | resume | step | pause =>
    dsimp only
    split
    · exact h
    · exact absurd h ‹_›
  | stop => rfl
  | breakpoint line => exact h
  | reset => exact absurd rfl hc

theorem state_controls_of_stopped {waiting : List Control} (hw : .reset ∉ waiting)
    (h : e.state = .stopped) : (waiting.foldl control e).state = .stopped := by
  induction waiting generalizing e with
  | nil => exact h
  | cons c waiting ih =>
    simp only [List.mem_cons, not_or] at hw
    exact ih hw.2 (state_control_of_stopped (Ne.symm hw.1) h)

theorem state_drained_of_stopped (h : e.state = .stopped) (hawaits : e.AwaitsNoReset) :
    e.drained.state = .stopped := by
  unfold drained
  split
  · exact h
  · rename_i waiting hwaiting
    exact state_controls_of_stopped (hawaits waiting hwaiting) h

/-- An engine that is stopped or has finished executes nothing. -/
def Stuck (e : Engine) : Prop := e.state = .stopped ∨ e.finished = true

theorem Stuck.drained (h : e.Stuck) (hawaits : e.AwaitsNoReset) : e.drained.Stuck :=
  h.imp (fun h => state_drained_of_stopped h hawaits) fun h =>
    (unmoved_drained hawaits).finished_eq.trans h

theorem Stuck.executing?_eq (h : e.drained.Stuck) : e.executing? = none := by
  unfold executing?
  dsimp only
  rcases h with h | h
  · rw [h]
  · split <;> simp [h]

end Engine

/-! ### What a happening keeps -/

section Acts

open Engine

variable {p : Program} {x : Execution} {times : Nat → Moment} {happening : Happening}

/-- The execution began with an engine of the program, and no reset waits for it. -/
structure Execution.Going (p : Program) (x : Execution) : Prop where
  visits : Visits p x.engine
  awaits : x.engine.AwaitsNoReset

/-- The execution has come to `y` without executing a command. -/
structure Execution.Rests (x y : Execution) : Prop where
  executed : y.executed = x.executed
  unmoved : x.engine.Unmoved y.engine
  stopped : x.engine.state = .stopped → y.engine.state = .stopped

/-- The execution has come to `y` by a step that `e` takes from the place of the execution. -/
structure Execution.Advances (times : Nat → Moment) (x y : Execution) (e : Engine) : Prop where
  unmoved : x.engine.Unmoved e
  clock : e.memory.clock = times x.executed
  not_stuck : ¬x.engine.Stuck
  step : Executed e e.step.1 e.step.2
  executed : y.executed = x.executed + 1
  behind : e.step.2.Unmoved y.engine
  stopped : y.engine.state = .stopped ↔ e.step.2.state = .stopped

variable {settings : Settings} {script : String} {log : Log}
  (hp : (Script.compile settings script log).1 = .ok p)

include hp

/-- A turn without a reset leaves the engine where it is, or the engine takes a step. -/
theorem Engine.turn_moves {e : Engine} (h : Visits p e) (hawaits : e.AwaitsNoReset) :
    e.turn.2.AwaitsNoReset ∧
    (e.executing? = none ∧ e.Unmoved e.turn.2 ∧ (e.state = .stopped → e.turn.2.state = .stopped) ∨
      (∃ entry, e.executing? = some entry) ∧ ¬e.Stuck ∧
        Executed e.drained e.drained.step.1 e.drained.step.2 ∧
        e.drained.step.2.Unmoved e.turn.2 ∧
        (e.turn.2.state = .stopped ↔ e.drained.step.2.state = .stopped)) := by
  have hdrained := awaitsNoReset_drained e
  cases hexecuting : e.executing? with
  | none =>
    obtain ⟨state, log, hturn, hstate⟩ := turn_of_idle hexecuting (h.next_lt hp)
    rw [hturn]
    refine ⟨hdrained, .inl ⟨rfl, (unmoved_drained hawaits).trans ⟨rfl, rfl⟩, fun hstopped => ?_⟩⟩
    have hstopped := state_drained_of_stopped hstopped hawaits
    rcases hstate with hstate | hstate | ⟨-, hgoing⟩
    · exact hstate.trans hstopped
    · exact hstate
    · rcases hgoing with hgoing | hgoing <;> cases hstopped.symm.trans hgoing
  | some entry =>
    obtain ⟨-, hfinished, -, hentry, state, hturn, hstate⟩ := turn_of_executing hexecuting
    have hafter := h.executed hp hfinished hentry
    rw [hturn]
    refine ⟨fun waiting hwaiting => hdrained waiting (hafter.mailbox.symm.trans hwaiting),
      .inr ⟨⟨entry, rfl⟩, fun hstuck => ?_, hafter, ⟨rfl, rfl⟩, ?_⟩⟩
    · cases hexecuting.symm.trans (hstuck.drained hawaits).executing?_eq
    · rcases hstate with hstate | ⟨-, hstepping, hpaused⟩
      · rw [hstate]
      · rw [hpaused, hstepping]
        exact iff_of_false nofun nofun

/-- What a happening without a reset does to an execution: it leaves the engine where it is, or it
has it execute a command. -/
theorem Execution.Going.act_cases (h : x.Going p) (hfree : .reset ∉ happening.controls) :
    (x.act times happening).Going p ∧
    (x.Rests (x.act times happening) ∨ ∃ e, x.Advances times (x.act times happening) e) := by
  cases happening with
  | control c =>
    have hc : c ≠ .reset := fun heq => hfree (heq ▸ List.mem_cons_self)
    refine ⟨⟨h.visits.control c, fun waiting hwaiting => h.awaits waiting ?_⟩,
      .inl ⟨rfl, unmoved_control hc, state_control_of_stopped hc⟩⟩
    exact (x.engine.mailbox_control c).symm.trans hwaiting
  | mailbox waiting =>
    refine ⟨⟨h.visits.mailbox waiting, ?_⟩, .inl ⟨rfl, unmoved_withMailbox _ _, id⟩⟩
    rintro _ ⟨⟩
    exact hfree
  | turn =>
    let e := x.engine.clocked (times x.executed)
    have hvisits : Visits p e := h.visits.clock _
    have hclocked : x.engine.Unmoved e := unmoved_clocked _ _
    obtain ⟨hawaits, hmoves⟩ := turn_moves hp hvisits h.awaits
    have hengine : (x.act times .turn).engine = e.turn.2 := engine_turn _
    have hexecuted : (x.act times .turn).executed =
      if e.executing?.isSome then x.executed + 1 else x.executed := executed_turn _
    refine ⟨⟨hengine ▸ hvisits.turn, hengine ▸ hawaits⟩, ?_⟩
    rcases hmoves with ⟨hnone, hunmoved, hstopped⟩ | ⟨⟨entry, hsome⟩, hstuck, hstep, hbehind, hstate⟩
    · rw [hnone] at hexecuted
      exact .inl ⟨hexecuted, hengine ▸ hclocked.trans hunmoved, hengine ▸ hstopped⟩
    · rw [hsome] at hexecuted
      exact .inr ⟨e.drained, hclocked.trans (unmoved_drained (e := e) h.awaits), e.clock_drained,
        hstuck, hstep, hexecuted, hengine ▸ hbehind, hengine ▸ hstate⟩

/-! ### Behind a schedule -/

/-- The execution is abreast of as many steps as it has executed commands. None of them was taken by
an engine that had finished, and none but the last one failed. -/
structure Execution.Traces (p : Program) (times : Nat → Moment) (e : Engine) (x : Execution) : Prop
    extends Execution.Going p x where
  abreast : Abreast True p x.engine (steps times e x.executed)
  unfinished : ∀ i < x.executed, (steps times e i).finished = false
  answers : ∀ i, i + 1 < x.executed → answerAt times e i = .ok ()
  live : x.engine.state ≠ .stopped → ∀ i < x.executed, answerAt times e i = .ok ()

omit hp in
theorem Execution.Traces.finished_eq {e : Engine} (h : x.Traces p times e) :
    x.engine.finished = (steps times e x.executed).finished :=
  (congrArg Engine.finished h.abreast.progress :)

omit hp in
/-- The step of an engine that the execution left where it was is the next one of the bare steps. -/
theorem Execution.Traces.step {e f : Engine} (h : x.Traces p times e) (hf : x.engine.Unmoved f)
    (hclock : f.memory.clock = times x.executed) : f.step.1 = answerAt times e x.executed ∧
      Abreast True p f.step.2 (steps times e (x.executed + 1)) :=
  ((h.abreast.unmoved_left hf).unmoved_right (unmoved_clocked _ (times x.executed))).step
    (fun _ => hclock) (Program.portable (.inl trivial))

theorem Execution.Traces.act {e : Engine} (h : x.Traces p times e)
    (hfree : .reset ∉ happening.controls) : (x.act times happening).Traces p times e := by
  obtain ⟨hgoing, hrests | ⟨f, hadvances⟩⟩ := h.toGoing.act_cases hp hfree
  · refine ⟨hgoing, ?_, ?_, ?_, ?_⟩ <;> rw [hrests.executed]
    · exact h.abreast.unmoved_left hrests.unmoved
    · exact h.unfinished
    · exact h.answers
    · exact fun hlive => h.live fun heq => hlive (hrests.stopped heq)
  · obtain ⟨hanswer, habreast⟩ := h.step hadvances.unmoved hadvances.clock
    have hstuck := hadvances.not_stuck
    simp only [Stuck, not_or, Bool.not_eq_true] at hstuck
    have hlive := h.live hstuck.1
    refine ⟨hgoing, ?_, ?_, ?_, ?_⟩ <;> rw [hadvances.executed]
    · exact habreast.unmoved_left hadvances.behind
    · intro i hi
      rcases Nat.lt_succ_iff_lt_or_eq.mp hi with hi | rfl
      · exact h.unfinished i hi
      · exact h.finished_eq.symm.trans hstuck.2
    · exact fun i hi => hlive i (Nat.lt_of_succ_lt_succ hi)
    · intro hgoes i hi
      rcases Nat.lt_succ_iff_lt_or_eq.mp hi with hi | rfl
      · exact hlive i hi
      · rcases hadvances.step.state with ⟨hok, -⟩ | ⟨hstop, -⟩
        · exact hanswer.symm.trans hok
        · exact absurd (hadvances.stopped.mpr hstop) hgoes

theorem Execution.traces_after {e : Engine} (he : Fresh p e) {σ : List Happening}
    (hσ : ResetFree σ) : (Execution.after times { engine := e } σ).Traces p times e := by
  have hsteady := he.visits.steady hp
  have hmailbox : e.mailbox = none :=
    congrArg Steering.mailbox (he.steering (Script.fits_of_compile hp))
  refine after_induction (motive := Execution.Traces p times e)
    ⟨⟨he.visits, ?_⟩, ⟨hsteady.program, hsteady.holds.memory, .refl _ _, rfl⟩, nofun, nofun,
      fun _ => nofun⟩ fun x hx happening hmem => hx.act hp (hσ happening hmem)
  intro waiting hwaiting
  cases hmailbox.symm.trans hwaiting

/-- No control command waits, and there is no line to pause before. -/
structure Engine.Undisturbed (e : Engine) : Prop where
  mailbox : e.mailbox.getD [] = []
  breakpoints : e.breakpoints = []

omit hp in
theorem Engine.Undisturbed.executed {e f : Engine} {answer : Checked Unit} (h : e.Undisturbed)
    (hf : Executed e answer f) : f.Undisturbed :=
  ⟨hf.mailbox ▸ h.mailbox, hf.breakpoints.trans h.breakpoints⟩

/-- In the beginning an engine runs undisturbed. -/
theorem Engine.Fresh.undisturbed {e : Engine} (h : Fresh p e) :
    e.Undisturbed ∧ e.state = .running := by
  have hsteering := h.steering (Script.fits_of_compile hp)
  have hmailbox : e.mailbox = none := congrArg Steering.mailbox hsteering
  exact ⟨⟨by rw [hmailbox]; rfl, congrArg Steering.breakpoints hsteering⟩,
    congrArg Steering.state hsteering⟩

omit hp in
theorem Engine.Undisturbed.drained_eq {e : Engine} (h : e.Undisturbed) : e.drained = e :=
  drained_of_empty h.mailbox

omit hp in
theorem Engine.Undisturbed.breakpointLine?_eq {e : Engine} (h : e.Undisturbed) :
    e.breakpointLine? = none := by
  unfold breakpointLine?
  rw [h.breakpoints]
  split
  · rfl
  · split <;> rfl

omit hp in
theorem Engine.Undisturbed.executing?_eq {e : Engine} (h : e.Undisturbed)
    (hrunning : e.state = .running) (hfinished : e.finished = false) :
    e.executing? = e.program.commands[e.next]? := by
  have hgoing : e.drained.IsGoing := by
    rw [h.drained_eq]
    exact .inl hrunning
  rw [executing?_of_going hgoing, h.drained_eq, h.breakpointLine?_eq, hfinished]
  rfl

omit hp in
theorem Execution.visits_act (h : Visits p x.engine) (happening : Happening) :
    Visits p (x.act times happening).engine := by
  cases happening with
  | control c => exact h.control c
  | mailbox waiting => exact h.mailbox waiting
  | turn => exact (engine_turn (x.clocked _)).symm ▸ (h.clock _).turn

omit hp in
theorem Execution.visits_after {e : Engine} (he : Fresh p e) (σ : List Happening) :
    Visits p (Execution.after times { engine := e } σ).engine :=
  after_induction (motive := fun x => Visits p x.engine) he.visits fun _ hx happening _ =>
    visits_act hx happening

end Acts

namespace Engine

/-- The engines hold the same data: the same variables but for the moments of writes, the same place
of the program with the same calls, chains and loops in progress, and the same output. -/
structure SameData (e f : Engine) : Prop where
  store : e.memory.store.timeless = f.memory.store.timeless
  next : e.next = f.next
  calls : e.calls = f.calls
  taken : e.taken = f.taken
  loops : e.loops = f.loops
  finished : e.finished = f.finished
  output : e.output = f.output

theorem SameData.of_progress {e f : Engine} (h : e.progress = f.progress)
    (hstore : e.memory.store.timeless = f.memory.store.timeless) : SameData e f where
  store := hstore
  next := (congrArg Engine.next h :)
  calls := (congrArg Engine.calls h :)
  taken := (congrArg Engine.taken h :)
  loops := (congrArg Engine.loops h :)
  finished := (congrArg Engine.finished h :)
  output := (congrArg Engine.output h :)

theorem SameData.trans {e f g : Engine} (h : SameData e f) (h' : SameData f g) : SameData e g where
  store := h.store.trans h'.store
  next := h.next.trans h'.next
  calls := h.calls.trans h'.calls
  taken := h.taken.trans h'.taken
  loops := h.loops.trans h'.loops
  finished := h.finished.trans h'.finished
  output := h.output.trans h'.output

theorem Unmoved.sameData {e f : Engine} (h : e.Unmoved f) : SameData e f :=
  .of_progress h.progress.symm (by rw [h.store])

end Engine

section Schedules

open Engine

variable {settings : Settings} {script : String} {log : Log} {p : Program} {e : Engine}

/-- Executions of as many commands come to the same data. -/
theorem Execution.Traces.same {times times' : Nat → Moment} {x y : Execution}
    (hx : x.Traces p times e) (hy : y.Traces p times' e) (he : e.program = p)
    (hfits : p.store.Fits e.memory.store) (hclock : times = times' ∨ p.ignoresClock = true)
    (hcount : y.executed = x.executed) : SameData x.engine y.engine ∧
      (times = times' → x.engine.memory.store = y.engine.memory.store) := by
  have hsteps := steps_abreast he hfits (Program.portable hclock) x.executed
  have hxs := hx.abreast
  have hys := hcount ▸ hy.abreast
  have hprogress : x.engine.progress = y.engine.progress :=
    hxs.progress.trans (hsteps.progress.trans hys.progress.symm)
  have hxstore := hxs.store.eq trivial
  have hystore := hys.store.eq trivial
  refine ⟨.of_progress hprogress ?_, fun hsame => ?_⟩
  · rw [hxstore, hystore]
    exact hsteps.store.timeless
  · rw [hxstore, hystore]
    exact hsteps.store.eq hsame

/-- A script that prints sums. -/
def sums : String := "ALLOCATE GLOBAL Integer n\nFOR i = 1 ; < 4\nSET n += $i\nPRINT $n\nENDFOR\n"

/-- A clock that goes on by a second with every command. -/
def ticking (n : Nat) : Moment := { Moment.epoch with second := n }

/-- A pause between the two writes. -/
def interrupted : List Happening :=
  [.turn, .turn, .control .pause, .turn, .control .resume] ++ List.replicate 6 .turn

end Schedules

end CommandScript
