import CommandScript.Proofs.Engine.Effect
import CommandScript.Proofs.Structure.Meaning

/-!
# The course of the engine

The same that can be seen of the execution of a tree, for the engine that goes from command to
command. In a course the engine stands in front of a command (`Arrives`) or in the middle of one
(`Midway`); what it does there without touching its data leads it on.
-/

namespace CommandScript

namespace Engine

/-- The condition that a command comes to evaluate; a branch that is passed over has none. -/
def Flow.conditionOf? (f : Flow) (entry : Entry) : Option Condition :=
  match entry.command with
  | .if_ c | .skipIf _ c | .breakIf _ c => some c
  | .elseIf c =>
    match f.program.chains.chainOf entry.index with
    | .ok chain => if f.taken.get? (f.depth, chain.ifIndex) = some true then none else some c
    | .error _ => none
  | _ => none

/-- The outcome of the condition of a command, if it has one. -/
def verdict (e : Engine) (entry : Entry) : List Event :=
  match e.flow.conditionOf? entry with
  | none => []
  | some c =>
    match ((truth c).run e).1 with
    | .ok b => [.evaluated entry.index b]
    | .error _ => []

/-- What happens in the next step. -/
def events (e : Engine) : List Event :=
  if e.finished then []
  else match e.program.commands[e.next]? with
    | none => []
    | some entry => .reached entry.index :: e.verdict entry

/-- The course of the engine in a number of steps, behind the events that happened already. -/
def course : Nat → List Event → Engine → Course
  | 0, events, e => ⟨events, none, e.data⟩
  | n + 1, events, e =>
    match e.step with
    | (.ok (), after) => after.course n (events ++ e.events)
    | (.error f, after) => ⟨events ++ e.events, some f, after.data⟩

/-- The course behind a step. -/
def onward (n : Nat) (events : List Event) : Checked Unit × Engine → Course
  | (.ok (), e) => e.course n events
  | (.error f, e) => ⟨events, some f, e.data⟩

/-- The course once the command of `entry` was executed. -/
def resume (entry : Entry) (n : Nat) (events : List Event) : Checked Move × Engine → Course
  | (.ok move, e) => onward n events ((follow move).run e)
  | (.error f, e) => ⟨events, some (e.stopOn entry f).1, (e.stopOn entry f).2.data⟩

variable {e f : Engine} {entry : Entry} {n : Nat} {events : List Event}

theorem course_succ_eq (n : Nat) (events : List Event) (e : Engine) :
    e.course (n + 1) events = onward n (events ++ e.events) e.step := by
  rw [course]
  rcases e.step with ⟨fault | u, after⟩ <;> rfl

theorem course_of_finished (h : e.finished = true) : e.course n events = ⟨events, none, e.data⟩ := by
  have hstep : e.step = (.ok (), e) := by rw [step, if_pos h]
  have hevents : e.events = [] := by rw [Engine.events, if_pos h]
  induction n with
  | zero => rfl
  | succ n ih =>
    rw [course, hstep, hevents, List.append_nil]
    exact ih

theorem sameView_of_flow (hd : e.data = f.data) (hf : e.flow = f.flow) : SameView e f := by
  have hview : e.viewpoint = f.viewpoint := by
    have hcalls : e.calls = f.calls := congrArg Flow.calls hf
    have hloops : e.loops = f.loops := congrArg Flow.loops hf
    simp only [viewpoint, Engine.owner, depth, hcalls, hloops]
  exact ⟨hd, by rw [hview], by rw [hview]⟩

theorem verdict_congr (hd : e.data = f.data) (hf : e.flow = f.flow) :
    e.verdict entry = f.verdict entry := by
  have hsame (c : Condition) := ((plain_truth c).same e f (sameView_of_flow hd hf)).1
  simp only [verdict, hf, hsame]

theorem course_succ (hfin : e.finished = false) (he : e.program.commands[e.next]? = some entry) :
    e.course (n + 1) events =
      resume entry n (events ++ .reached entry.index :: e.verdict entry)
        ((execute entry).run { e with skipBreakpoint := false }) := by
  have hevents : e.events = .reached entry.index :: e.verdict entry := by
    simp only [Engine.events, hfin, he, Bool.false_eq_true, ↓reduceIte]
  have hrun : ¬ e.finished = true := by rw [hfin]; exact Bool.false_ne_true
  rw [course_succ_eq, step, if_neg hrun, he, hevents]
  dsimp only
  rcases (execute entry).run { e with skipBreakpoint := false } with ⟨fault | move, after⟩
  · rfl
  · rfl

theorem course_succ_of_none (hfin : e.finished = false)
    (he : e.program.commands[e.next]? = none) :
    e.course (n + 1) events = onward n events (finish.run e) := by
  have hevents : e.events = [] := by
    simp only [Engine.events, hfin, he, Bool.false_eq_true, ↓reduceIte]
  have hrun : ¬ e.finished = true := by rw [hfin]; exact Bool.false_ne_true
  rw [course_succ_eq, step, if_neg hrun, he, hevents, List.append_nil]

/-! ### Ends -/

theorem stopOn_congr (h : e.data = f.data) (entry : Entry) (fault : Fault) :
    (e.stopOn entry fault).1 = (f.stopOn entry fault).1 ∧
      (e.stopOn entry fault).2.data = (f.stopOn entry fault).2.data := by
  have hdata (e : Engine) : (e.stopOn entry fault).2.data = (e.data.stopOn entry fault).2.data := by
    rw [stopOn_eq, stopOn_eq]
    rfl
  exact ⟨rfl, by rw [hdata e, hdata f, h]⟩

theorem finish_congr (h : e.data = f.data) (hnext : e.next = f.next) :
    (finish.run e).1 = (finish.run f).1 ∧ (finish.run e).2.data = (finish.run f).2.data := by
  have hpapers : e.papers = f.papers := (congrArg papers h :)
  have hended (p : Files.Papers) : (e.ended p).data = (f.ended p).data :=
    (congrArg (fun e : Engine => (e.ended p).data) h :)
  rw [run_finish, run_finish, hpapers]
  rcases Files.Papers.settle.run f.papers with ⟨fault | u, p⟩
  · exact ⟨rfl, hended p⟩
  · refine ⟨rfl, ?_⟩
    rw [hnext]
    exact (congrArg (fun e : Engine => (e.report .program _).data) (hended p) :)

theorem finished_finish (e : Engine) : (finish.run e).2.finished = true :=
  congrArg Flow.finished (flow_finish e)

end Engine

end CommandScript
