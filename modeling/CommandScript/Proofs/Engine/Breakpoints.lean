import CommandScript.Proofs.Engine.Steering

/-!
# Lines to pause before

A running engine executes a command whose line is one to pause before only if it has been paused at
that command, or was told there to run although it was going already: the latter spares it the pause
that it has not made. What an execution has met since its last command shows which it was
(`Execution.Watched`).
-/

namespace CommandScript

open Engine

namespace Engine

variable {e : Engine} {entry : Entry}

/-- Only an engine that was told to skip the pause gets past a line to pause before. -/
theorem skipBreakpoint_of_passed (h : e.breakpointLine? = none)
    (hentry : e.program.commands[e.next]? = some entry) (hline : entry.line ∈ e.breakpoints) :
    e.skipBreakpoint = true := by
  unfold breakpointLine? at h
  split at h
  · assumption
  · rw [hentry] at h
    dsimp only at h
    rw [if_pos (List.contains_iff_mem.mpr hline)] at h
    cases h

theorem turn_of_passed (hgoing : e.drained.IsGoing) (h : e.drained.breakpointLine? = none) :
    e.turn = e.drained.executeTurn := by
  rw [turn_of_going hgoing, h]

/-- A running engine does not pause behind the command that it executes. -/
theorem state_executeTurn_of_running (hrunning : e.state = .running)
    (h : Executed e e.step.1 e.step.2) : e.executeTurn.2.state ≠ .paused := by
  have hstep : e.step.2.state ≠ .paused := by
    rcases h.state with ⟨-, hstate⟩ | ⟨hstate, -⟩
    · rw [hstate, hrunning]
      nofun
    · rw [hstate]
      nofun
  unfold executeTurn
  revert hstep
  rcases e.step with ⟨g | u, after⟩
  · exact id
  · dsimp only
    rw [if_neg fun hstepping => by cases hrunning.symm.trans hstepping.1]
    exact id

end Engine

namespace Execution

/-- The engine has been paused at the command that comes next. -/
def Paused (x : Execution) : Prop :=
  ∃ met ∈ x.since, met.1.state = .paused ∧ met.1.next = x.engine.next

/-- The engine was going when it was told to run at the command that comes next. -/
def Urged (x : Execution) : Prop :=
  ∃ met ∈ x.since, (met.2 = some .run ∨ met.2 = some .resume) ∧ met.1.IsGoing ∧
    met.1.next = x.engine.next

instance (x : Execution) : Decidable x.Paused :=
  inferInstanceAs (Decidable (∃ met ∈ x.since, met.1.state = .paused ∧ met.1.next = x.engine.next))

instance (x : Execution) : Decidable x.Urged :=
  inferInstanceAs (Decidable (∃ met ∈ x.since, (met.2 = some .run ∨ met.2 = some .resume) ∧
    (met.1.state = .running ∨ met.1.state = .stepping) ∧ met.1.next = x.engine.next))

/-- An engine that runs and skips the pause has been paused at the command that comes next, or urged
there. -/
def Watched (x : Execution) : Prop :=
  x.engine.skipBreakpoint = true → x.engine.state = .running → x.Paused ∨ x.Urged

variable {p : Program} {x : Execution} {times : Nat → Moment}

/-- An execution stays watched when it meets something, if its engine does not begin to skip the
pause unseen. -/
theorem Watched.push (h : x.Watched) {m f : Engine} {c : Option Control}
    (hm : m.next = x.engine.next) (hf : f.next = x.engine.next)
    (hskips : f.skipBreakpoint = true → f.state = .running →
      x.engine.skipBreakpoint = true ∧ x.engine.state = .running ∨ m.state = .paused ∨
        (c = some .run ∨ c = some .resume) ∧ m.IsGoing) :
    Watched { engine := f, executed := x.executed, since := (m, c) :: x.since } := by
  intro hskip hrunning
  rcases hskips hskip hrunning with hbefore | hpaused | ⟨hc, hgoing⟩
  · rcases h hbefore.1 hbefore.2 with ⟨met, hmem, hpaused, hnext⟩ | ⟨met, hmem, hc, hgoing, hnext⟩
    · exact .inl ⟨met, List.mem_cons_of_mem _ hmem, hpaused, hnext.trans hf.symm⟩
    · exact .inr ⟨met, List.mem_cons_of_mem _ hmem, hc, hgoing, hnext.trans hf.symm⟩
  · exact .inl ⟨_, List.mem_cons_self, hpaused, hm.trans hf.symm⟩
  · exact .inr ⟨_, List.mem_cons_self, hc, hgoing, hm.trans hf.symm⟩

/-- No pause is skipped. -/
theorem Watched.anew {f : Engine} {n : Nat} (h : f.skipBreakpoint = false) :
    Watched { engine := f, executed := n } := by
  intro hskip
  cases h.symm.trans hskip

/-- What a control command does to the flag that skips the pause. -/
theorem skips_control {e : Engine} {c : Control} (hc : c ≠ .reset)
    (hskip : (e.control c).skipBreakpoint = true) (hrunning : (e.control c).state = .running) :
    e.skipBreakpoint = true ∧ e.state = .running ∨ e.state = .paused ∨
      (some c = some .run ∨ some c = some .resume) ∧ e.IsGoing := by
  cases hstate : e.state with
  | stopped => cases (state_control_of_stopped hc hstate).symm.trans hrunning
  | paused => exact .inr (.inl rfl)
  | running | stepping =>
    have hgoing : e.IsGoing := by simp [IsGoing, hstate]
    cases c with
    | run => exact .inr (.inr ⟨.inl rfl, hgoing⟩)
    | resume => exact .inr (.inr ⟨.inr rfl, hgoing⟩)
    | step | pause =>
      unfold Engine.control at hrunning
      dsimp only at hrunning
      split at hrunning
      · rename_i hstopped
        cases hstopped.symm.trans hrunning
      · cases hrunning
    | stop => cases hrunning
    | breakpoint line => exact .inl ⟨hskip, hstate.symm.trans hrunning⟩
    | reset => exact absurd rfl hc

theorem Watched.meet (h : x.Watched) (c : Control) : (x.meet c).Watched := by
  unfold Execution.meet
  by_cases hc : c = .reset
  · rw [if_pos hc, hc]
    exact .anew rfl
  · rw [if_neg hc]
    exact h.push rfl (unmoved_control hc).next_eq (skips_control hc)

theorem Watched.meets (h : x.Watched) (waiting : List Control) :
    (waiting.foldl Execution.meet x).Watched := by
  induction waiting generalizing x with
  | nil => exact h
  | cons c waiting ih => exact ih (h.meet c)

theorem Watched.withMailbox (h : x.Watched) (mailbox : Option (List Control)) :
    Watched { x with engine := { x.engine with mailbox } } := h

theorem Watched.drained (h : x.Watched) : x.drained.Watched := by
  unfold Execution.drained
  split
  · exact h
  · exact (h.withMailbox _).meets _

theorem Watched.clocked (h : x.Watched) (now : Moment) : (x.clocked now).Watched := h

variable {settings : Settings} {script : String} {log : Log}
  (hp : (Script.compile settings script log).1 = .ok p)

include hp

/-- A turn that executes a command begins anew; one that executes none adds the engine that it found
and skips no pause that was not skipped before. -/
theorem Watched.turn (h : x.Watched) (hvisits : Visits p x.engine) : x.turn.Watched := by
  have hdrained := h.drained
  unfold Execution.turn
  cases hexecuting : x.engine.executing? with
  | some entry =>
    obtain ⟨-, hfinished, -, hentry, state, hturn, -⟩ := turn_of_executing hexecuting
    dsimp only
    rw [hturn]
    exact .anew (hvisits.executed hp hfinished hentry).skipBreakpoint
  | none =>
    obtain ⟨state, log, hturn, hstate⟩ := turn_of_idle hexecuting (hvisits.next_lt hp)
    dsimp only
    rw [hturn]
    refine hdrained.push (by rw [engine_drained]) (by rw [engine_drained]) fun hskip hrunning => ?_
    rw [engine_drained]
    rcases hstate with hsame | hstopped | ⟨hpaused, -⟩
    · exact .inl ⟨hskip, hsame.symm.trans hrunning⟩
    · cases hstopped.symm.trans hrunning
    · cases hpaused.symm.trans hrunning

theorem watched_after {e : Engine} (he : Fresh p e) (σ : List Happening) :
    (Execution.after times { engine := e } σ).Watched := by
  have hskip : e.skipBreakpoint = false :=
    congrArg Steering.skipBreakpoint (he.steering (Script.fits_of_compile hp))
  refine (after_induction (motive := fun x => Visits p x.engine ∧ x.Watched)
    ⟨he.visits, .anew hskip⟩ fun x ⟨hvisits, hx⟩ happening _ =>
      ⟨visits_act hvisits happening, ?_⟩).2
  cases happening with
  | control c => exact hx.meet c
  | mailbox waiting => exact hx.withMailbox _
  | turn => exact (hx.clocked _).turn hp (hvisits.clock _)

/-- A running engine that executes a command whose line is one to pause before has been paused at
that command since it executed the command before it, began, or was set back; or it was told to run
there while it was going. -/
theorem paused_of_breakpoint {e : Engine} (he : Fresh p e) (σ : List Happening) (now : Moment)
    {entry : Entry} :
    let x := (Execution.after times { engine := e } σ).clocked now
    let f := x.engine.drained
    x.engine.turn = f.executeTurn → f.finished = false → f.state = .running →
      f.program.commands[f.next]? = some entry → entry.line ∈ f.breakpoints →
      x.drained.Paused ∨ x.drained.Urged := by
  intro x f hturn hfinished hrunning hentry hline
  have hx : x.drained.Watched := ((watched_after hp he σ).clocked now).drained
  have hengine : x.drained.engine = f := engine_drained x
  have hvisits : Visits p x.engine := (visits_after he σ).clock now
  refine hx ?_ (hengine ▸ hrunning)
  rw [hengine]
  cases hpassed : f.breakpointLine? with
  | none => exact skipBreakpoint_of_passed hpassed hentry hline
  | some line =>
    -- the turn would pause, and the command does not
    refine absurd ?_ (state_executeTurn_of_running hrunning (hvisits.executed hp hfinished hentry))
    rw [← hturn, turn_of_going (.inl hrunning), hpassed]

omit hp

/-- A line of a loop to pause before, and a resumption from the mailbox behind each pause. -/
def interrupted : List Happening :=
  [.control (.breakpoint 4), .turn, .turn, .turn, .turn, .mailbox [.run], .turn, .turn, .turn,
    .turn, .mailbox [.resume]]

/-- The second time around the engine has paused at the line again. -/
theorem paused_of_breakpoint_loop : ∃ (p : Program) (e : Engine) (entry : Entry),
    (Script.compile {} sums).1 = .ok p ∧ Fresh p e ∧
    let x := (Execution.after ticking { engine := e } interrupted).clocked .epoch
    let f := x.engine.drained
    x.engine.turn = f.executeTurn ∧ f.finished = false ∧ f.state = .running ∧
      f.program.commands[f.next]? = some entry ∧ entry.line ∈ f.breakpoints ∧ x.executed = 6 ∧
      x.drained.Paused := by
  obtain ⟨p, e, hp, hready, h⟩ := exists_of_tried sums
    (fun _ e =>
      let x := (Execution.after ticking { engine := e } interrupted).clocked .epoch
      let f := x.engine.drained
      f.program.commands[f.next]?.any (fun entry => f.breakpoints.contains entry.line) &&
        f.breakpointLine? == none && f.finished == false && f.state == .running &&
        x.executed == 6 && !decide x.drained.Urged)
    (by decide +kernel)
  simp only [Bool.and_eq_true, beq_iff_eq, Bool.not_eq_true', decide_eq_false_iff_not,
    Option.any_eq_true, List.contains_iff_mem] at h
  obtain ⟨⟨⟨⟨⟨⟨entry, hentry, hline⟩, hpassed⟩, hfinished⟩, hrunning⟩, hcount⟩, hurged⟩ := h
  have hturn := turn_of_passed (.inl hrunning) hpassed
  have hpaused := paused_of_breakpoint hp (.prepared hready) interrupted .epoch hturn hfinished
    hrunning hentry hline
  exact ⟨p, e, entry, hp, .prepared hready, hturn, hfinished, hrunning, hentry, hline, hcount,
    hpaused.resolve_right hurged⟩

/-- Told to run before it has begun, the engine passes the line of its first command. -/
theorem breakpoint_passed_of_urged : ∃ (p : Program) (e : Engine) (entry : Entry),
    (Script.compile {} "PRINT \"a\"").1 = .ok p ∧ Fresh p e ∧
    let x := Execution.after ticking { engine := e } [.control (.breakpoint 1), .control .run]
    let f := x.engine.drained
    x.engine.turn = f.executeTurn ∧ f.finished = false ∧ f.state = .running ∧
      f.program.commands[f.next]? = some entry ∧ entry.line ∈ f.breakpoints ∧
      x.engine.turn.2.output = #["a"] ∧ ¬x.drained.Paused := by
  obtain ⟨p, e, hp, hready, h⟩ := exists_of_tried "PRINT \"a\""
    (fun _ e =>
      let x := Execution.after ticking { engine := e } [.control (.breakpoint 1), .control .run]
      let f := x.engine.drained
      f.program.commands[f.next]?.any (fun entry => f.breakpoints.contains entry.line) &&
        f.breakpointLine? == none && f.finished == false && f.state == .running &&
        x.engine.turn.2.output == #["a"] && !decide x.drained.Paused)
    (by decide +kernel)
  simp only [Bool.and_eq_true, beq_iff_eq, Bool.not_eq_true', decide_eq_false_iff_not,
    Option.any_eq_true, List.contains_iff_mem] at h
  obtain ⟨⟨⟨⟨⟨⟨entry, hentry, hline⟩, hpassed⟩, hfinished⟩, hrunning⟩, hprinted⟩, hpaused⟩ := h
  exact ⟨p, e, entry, hp, .prepared hready, turn_of_passed (.inl hrunning) hpassed, hfinished,
    hrunning, hentry, hline, hprinted, hpaused⟩

end Execution

end CommandScript
