import CommandScript.Proofs.Engine.Pairing

/-!
# Schedules

A schedule says what happens to an engine between its commands: it is handed control commands, finds
some in its mailbox, or is given a turn, in which it executes a command at most. An execution takes
an engine through a schedule and counts the commands. All that happens without a reset leaves the
engine's progress and its variables alone but for the commands that it executes (`Unmoved`).
-/

namespace CommandScript

/-- What may happen to an engine between two of its commands. -/
inductive Happening where
  | control (c : Control)
  /-- These control commands wait in the mailbox from now on. -/
  | mailbox (waiting : List Control)
  /-- The engine is given a turn. -/
  | turn

/-- The control commands that come with the happening. -/
def Happening.controls : Happening → List Control
  | control c => [c]
  | mailbox waiting => waiting
  | turn => []

/-- Nothing in the schedule sets the engine back. -/
def ResetFree (schedule : List Happening) : Prop :=
  ∀ happening ∈ schedule, Control.reset ∉ happening.controls

instance (schedule : List Happening) : Decidable (ResetFree schedule) :=
  inferInstanceAs (Decidable (∀ happening ∈ schedule, Control.reset ∉ happening.controls))

theorem ResetFree.of_append {σ τ : List Happening} (h : ResetFree (σ ++ τ)) :
    ResetFree σ ∧ ResetFree τ :=
  ⟨fun happening hmem => h happening (List.mem_append_left _ hmem),
    fun happening hmem => h happening (List.mem_append_right _ hmem)⟩

theorem resetFree_turns (n : Nat) : ResetFree (List.replicate n .turn) := by
  intro happening hmem
  rw [List.eq_of_mem_replicate hmem]
  exact List.not_mem_nil

namespace Engine

/-- The engine under a clock that shows `now`. -/
def clocked (e : Engine) (now : Moment) : Engine :=
  { e with memory := { e.memory with clock := now } }

/-- The command that a turn of the engine executes, if it executes one. -/
def executing? (e : Engine) : Option Entry :=
  let e := e.drained
  match e.state with
  | .stopped | .paused => none
  | .running | .stepping =>
    if e.finished || e.breakpointLine?.isSome then none else e.program.commands[e.next]?

/-- No reset waits in the mailbox. -/
def AwaitsNoReset (e : Engine) : Prop :=
  ∀ waiting, e.mailbox = some waiting → Control.reset ∉ waiting

/-! ### What leaves an engine where it is -/

/-- The engine has the variables and the progress that it had. -/
structure Unmoved (e f : Engine) : Prop where
  store : f.memory.store = e.memory.store
  progress : f.progress = e.progress

namespace Unmoved

variable {e f g : Engine}

theorem refl (e : Engine) : e.Unmoved e := ⟨rfl, rfl⟩

theorem trans (h : e.Unmoved f) (h' : f.Unmoved g) : e.Unmoved g :=
  ⟨h'.store.trans h.store, h'.progress.trans h.progress⟩

theorem program_eq (h : e.Unmoved f) : f.program = e.program :=
  (congrArg Engine.program h.progress :)

theorem next_eq (h : e.Unmoved f) : f.next = e.next :=
  (congrArg Engine.next h.progress :)

theorem finished_eq (h : e.Unmoved f) : f.finished = e.finished :=
  (congrArg Engine.finished h.progress :)

end Unmoved

variable {e f : Engine} {p : Program}

theorem unmoved_clocked (e : Engine) (now : Moment) : e.Unmoved (e.clocked now) := ⟨rfl, rfl⟩

theorem unmoved_withMailbox (e : Engine) (waiting : List Control) :
    e.Unmoved (e.withMailbox waiting) := ⟨rfl, rfl⟩

theorem unmoved_control {c : Control} (hc : c ≠ .reset) : e.Unmoved (e.control c) := by
  unfold control
  cases c with
  | run | resume | step | pause =>
    dsimp only
    split <;> exact ⟨rfl, rfl⟩
  | stop | breakpoint line => exact ⟨rfl, rfl⟩
  | reset => exact absurd rfl hc

theorem mailbox_control (e : Engine) (c : Control) : (e.control c).mailbox = e.mailbox := by
  unfold control
  cases c with
  | run | resume | step | pause =>
    dsimp only
    split <;> rfl
  | stop | breakpoint line => rfl
  | reset =>
    obtain ⟨log, hreset⟩ := (e.report .program s!"{Control.reset} received while {e.state}").exists_reset
    dsimp only
    rw [hreset]
    rfl

theorem unmoved_controls {waiting : List Control} (h : .reset ∉ waiting) :
    e.Unmoved (waiting.foldl control e) := by
  induction waiting generalizing e with
  | nil => exact .refl e
  | cons c waiting ih =>
    simp only [List.mem_cons, not_or] at h
    exact (unmoved_control (Ne.symm h.1)).trans (ih h.2)

theorem mailbox_controls (waiting : List Control) (e : Engine) :
    (waiting.foldl control e).mailbox = e.mailbox := by
  induction waiting generalizing e with
  | nil => rfl
  | cons c waiting ih => exact (ih _).trans (e.mailbox_control c)

/-- In an empty mailbox there is nothing to take in. -/
theorem drained_of_empty (h : e.mailbox.getD [] = []) : e.drained = e := by
  unfold drained
  split
  · rfl
  · rename_i waiting hmailbox
    obtain rfl : waiting = [] := by rwa [hmailbox] at h
    rw [List.foldl_nil, ← hmailbox]

theorem unmoved_drained (h : e.AwaitsNoReset) : e.Unmoved e.drained := by
  unfold drained
  split
  · exact .refl e
  · rename_i waiting hmailbox
    exact Unmoved.trans (f := { e with mailbox := some [] }) ⟨rfl, rfl⟩
      (unmoved_controls (h waiting hmailbox))

/-- Behind a drain nothing waits. -/
theorem awaitsNoReset_drained (e : Engine) : e.drained.AwaitsNoReset := by
  unfold drained AwaitsNoReset
  split
  · rename_i hnone
    rw [hnone]
    exact nofun
  · rw [mailbox_controls]
    rintro _ ⟨⟩
    exact List.not_mem_nil

/-! ### Turns -/

/-- The engine is neither paused nor stopped. -/
def IsGoing (e : Engine) : Prop := e.state = .running ∨ e.state = .stepping

theorem executing?_of_going (h : e.drained.IsGoing) : e.executing? =
    if e.drained.finished || e.drained.breakpointLine?.isSome then none
    else e.drained.program.commands[e.drained.next]? := by
  unfold executing?
  rcases h with h | h <;> simp only [h]

theorem isGoing_of_executing {entry : Entry} (h : e.executing? = some entry) :
    e.drained.IsGoing := by
  unfold executing? at h
  unfold IsGoing
  dsimp only at h
  split at h
  · cases h
  · cases h
  · exact .inl ‹_›
  · exact .inr ‹_›

theorem turn_of_going (h : e.drained.IsGoing) : e.turn =
    match e.drained.breakpointLine? with
    | some line => (none, { e.drained.report .program s!"breakpoint at line {line}" with
        state := .paused })
    | none => e.drained.executeTurn := by
  unfold turn
  dsimp only
  cases e.drained.breakpointLine? with
  | none | some line => rcases h with h | h <;> rw [h]

theorem turn_of_not_going (h : ¬e.drained.IsGoing) : ∃ state log, e.turn.2 =
      { e.drained with state, memory := { e.drained.memory with log } } ∧
    (state = e.drained.state ∨ state = .stopped) := by
  unfold turn
  unfold IsGoing at h
  dsimp only
  split
  · exact ⟨e.drained.state, e.drained.memory.log, rfl, .inl rfl⟩
  · split
    · exact ⟨e.drained.state, e.drained.memory.log, rfl, .inl rfl⟩
    · exact ⟨.stopped, _, rfl, .inr rfl⟩
  · exact absurd (.inl ‹_›) h
  · exact absurd (.inr ‹_›) h

/-- A turn that executes no command changes the state and the log at most. -/
theorem turn_of_idle (h : e.executing? = none) (hnext : e.drained.next < e.drained.program.size) :
    ∃ state log, e.turn.2 = { e.drained with state, memory := { e.drained.memory with log } } ∧
      (state = e.drained.state ∨ state = .stopped ∨ state = .paused ∧ e.drained.IsGoing) := by
  by_cases hgoing : e.drained.IsGoing
  · rw [executing?_of_going hgoing] at h
    rw [turn_of_going hgoing]
    cases hline : e.drained.breakpointLine? with
    | some line => exact ⟨.paused, _, rfl, .inr (.inr ⟨rfl, hgoing⟩)⟩
    | none =>
      cases hfinished : e.drained.finished with
      | false =>
        rw [hline, hfinished] at h
        exact absurd (Array.getElem?_eq_none_iff.mp h) (Nat.not_le.mpr hnext)
      | true =>
        -- an engine that has finished and still goes is left as it is, or pauses after a single step
        unfold executeTurn
        rw [step_of_finished hfinished]
        dsimp only
        split
        · exact ⟨.paused, e.drained.memory.log, rfl, .inr (.inr ⟨rfl, hgoing⟩)⟩
        · exact ⟨e.drained.state, e.drained.memory.log, rfl, .inl rfl⟩
  · obtain ⟨state, log, hturn, hstate⟩ := turn_of_not_going hgoing
    exact ⟨state, log, hturn, hstate.imp_right .inl⟩

/-- A turn that executes a command takes a step; a single step is over behind it. -/
theorem turn_of_executing {entry : Entry} (h : e.executing? = some entry) :
    e.drained.IsGoing ∧ e.drained.finished = false ∧ e.drained.breakpointLine? = none ∧
      e.drained.program.commands[e.drained.next]? = some entry ∧
      ∃ state, e.turn.2 = { e.drained.step.2 with state } ∧
        (state = e.drained.step.2.state ∨ e.drained.state = .stepping ∧
          e.drained.step.2.state = .stepping ∧ state = .paused) := by
  have hgoing := isGoing_of_executing h
  rw [executing?_of_going hgoing] at h
  split at h
  · cases h
  · rename_i hnot
    simp only [Bool.or_eq_true, not_or, Bool.not_eq_true, Option.isSome_eq_false_iff,
      Option.isNone_iff_eq_none] at hnot
    refine ⟨hgoing, hnot.1, hnot.2, h, ?_⟩
    rw [turn_of_going hgoing, hnot.2]
    dsimp only
    unfold executeTurn
    rcases e.drained.step with ⟨g | u, after⟩
    · exact ⟨after.state, rfl, .inl rfl⟩
    · dsimp only
      split
      · rename_i hstepping
        exact ⟨.paused, rfl, .inr ⟨hstepping.1, hstepping.2, rfl⟩⟩
      · exact ⟨after.state, rfl, .inl rfl⟩

end Engine

/-! ### Executions -/

/-- An engine on its way through a schedule. -/
structure Execution where
  engine : Engine
  /-- How many commands were executed. -/
  executed : Nat := 0
  /-- The engines on the way since the last command, the last reset or the beginning, newest first,
  each with the control command that it met then. -/
  since : List (Engine × Option Control) := []

namespace Execution

/-- Meets a control command. -/
def meet (x : Execution) (c : Control) : Execution where
  engine := x.engine.control c
  executed := x.executed
  since := if c = .reset then [] else (x.engine, some c) :: x.since

/-- Meets the control commands that wait. -/
def drained (x : Execution) : Execution :=
  match x.engine.mailbox with
  | none => x
  | some waiting => waiting.foldl meet { x with engine := { x.engine with mailbox := some [] } }

def clocked (x : Execution) (now : Moment) : Execution :=
  { x with engine := x.engine.clocked now }

def turn (x : Execution) : Execution :=
  match x.engine.executing? with
  | some _ => { engine := x.engine.turn.2, executed := x.executed + 1 }
  | none => { x.drained with
      engine := x.engine.turn.2
      since := (x.engine.drained, none) :: x.drained.since }

/-- Goes through a happening. The clock shows `times n` in the turn of command number `n`. -/
def act (times : Nat → Moment) (x : Execution) : Happening → Execution
  | .control c => x.meet c
  | .mailbox waiting => { x with engine := x.engine.withMailbox waiting }
  | .turn => (x.clocked (times x.executed)).turn

def after (times : Nat → Moment) (x : Execution) (schedule : List Happening) : Execution :=
  schedule.foldl (act times) x

variable {x : Execution} {times : Nat → Moment}

theorem after_append (σ τ : List Happening) :
    x.after times (σ ++ τ) = (x.after times σ).after times τ :=
  List.foldl_append

/-- What every happening of a schedule keeps holds behind the schedule. -/
theorem after_induction {motive : Execution → Prop} {schedule : List Happening} (h : motive x)
    (hact : ∀ x, motive x → ∀ happening ∈ schedule, motive (x.act times happening)) :
    motive (x.after times schedule) := by
  induction schedule generalizing x with
  | nil => exact h
  | cons happening schedule ih =>
    exact ih (hact x h happening List.mem_cons_self) fun x hx happening hmem =>
      hact x hx happening (List.mem_cons_of_mem _ hmem)

theorem executed_meets (waiting : List Control) (x : Execution) :
    (waiting.foldl meet x).executed = x.executed := by
  induction waiting generalizing x with
  | nil => rfl
  | cons c waiting ih => exact ih _

theorem engine_meets (waiting : List Control) (x : Execution) :
    (waiting.foldl meet x).engine = waiting.foldl Engine.control x.engine := by
  induction waiting generalizing x with
  | nil => rfl
  | cons c waiting ih => exact ih _

@[simp] theorem executed_drained (x : Execution) : x.drained.executed = x.executed := by
  unfold drained
  split
  · rfl
  · exact executed_meets ..

@[simp] theorem engine_drained (x : Execution) : x.drained.engine = x.engine.drained := by
  unfold drained Engine.drained
  cases x.engine.mailbox with
  | none => rfl
  | some waiting => exact engine_meets ..

@[simp] theorem engine_turn (x : Execution) : x.turn.engine = x.engine.turn.2 := by
  unfold turn
  split <;> rfl

theorem executed_turn (x : Execution) :
    x.turn.executed = if x.engine.executing?.isSome then x.executed + 1 else x.executed := by
  unfold turn
  cases x.engine.executing? with
  | some entry => rfl
  | none => exact x.executed_drained

end Execution

end CommandScript
