import CommandScript.Proofs.Engine.Likeness

/-!
# Twins

Twins are engines that have come to the same place of a program with the same calls, chains, loops,
files and output, and with memories alike; how they are steered does not matter. A command that may
be run in memories alike does the same to both, and it neither touches the steering nor takes back
what was printed (`paired_execute`).
-/

namespace CommandScript

/-- How an engine is steered. -/
structure Steering where
  state : RunState
  mailbox : Option (List Control)
  breakpoints : List Nat
  skipBreakpoint : Bool

namespace Engine

def steering (e : Engine) : Steering where
  state := e.state
  mailbox := e.mailbox
  breakpoints := e.breakpoints
  skipBreakpoint := e.skipBreakpoint

/-- The engine apart from how it is steered, and of its memory only where the random numbers come from. -/
def progress (e : Engine) : Engine :=
  { e with
    memory := { store := e.initial, draw := e.memory.draw }
    state := .running
    mailbox := none
    breakpoints := []
    skipBreakpoint := false }

/-- What a command keeps: the program and the steering stay, and what was printed stays printed. -/
structure Continues (e f : Engine) : Prop where
  program : f.program = e.program
  steering : f.steering = e.steering
  printed : e.output.toList <+: f.output.toList

theorem Continues.refl (e : Engine) : e.Continues e :=
  ⟨rfl, rfl, List.prefix_rfl⟩

theorem Continues.trans {e f g : Engine} (h : e.Continues f) (h' : f.Continues g) : e.Continues g :=
  ⟨h'.program.trans h.program, h'.steering.trans h.steering, h.printed.trans h'.printed⟩

structure Twins (same : Prop) (base : Store) (e f : Engine) : Prop where
  memory : e.memory.Alike same base f.memory
  progress : e.progress = f.progress

namespace Twins

variable {same : Prop} {base : Store} {e f : Engine}

theorem program_eq (h : Twins same base e f) : e.program = f.program :=
  (congrArg Engine.program h.progress :)

theorem desk_eq (h : Twins same base e f) : e.desk = f.desk :=
  (congrArg Engine.desk h.progress :)

theorem papers_eq (h : Twins same base e f) : e.papers = f.papers :=
  (congrArg Engine.papers h.progress :)

theorem scan_eq (h : Twins same base e f) : e.scan = f.scan :=
  (congrArg Engine.scan h.progress :)

/-- A change that looks neither at the memory nor at the steering. -/
theorem change (h : Twins same base e f) {g : Engine → Engine}
    (hmemory : (g e).memory.Alike same base (g f).memory)
    (hprogress : ∀ e, (g e).progress = (g e.progress).progress) : Twins same base (g e) (g f) :=
  ⟨hmemory, by rw [hprogress e, hprogress f, h.progress]⟩

end Twins

/-! ### Operations on twins -/

/-- Twins that two engines were continued to. -/
structure TwinsSince (same : Prop) (base : Store) (a b e f : Engine) : Prop
    extends Twins same base e f where
  left : a.Continues e
  right : b.Continues f

variable {same : Prop} {base : Store} {a b : Engine} {α : Type}

theorem TwinsSince.change {e f : Engine} (h : TwinsSince same base a b e f) {g : Engine → Engine}
    (hmemory : (g e).memory.Alike same base (g f).memory)
    (hprogress : ∀ e, (g e).progress = (g e.progress).progress)
    (hkeeps : ∀ e : Engine, e.Continues (g e)) :
    TwinsSince same base a b (g e) (g f) :=
  ⟨h.toTwins.change hmemory hprogress, h.left.trans (hkeeps e), h.right.trans (hkeeps f)⟩

theorem paired_modify {g : Engine → Engine} (hmemory : ∀ e f, TwinsSince same base a b e f →
      (g e).memory.Alike same base (g f).memory)
    (hprogress : ∀ e, (g e).progress = (g e.progress).progress)
    (hkeeps : ∀ e : Engine, e.Continues (g e)) :
    Paired (TwinsSince same base a b) (modify g : EngineM PUnit) :=
  couples_modify fun e f h => h.change (hmemory e f h) hprogress hkeeps

theorem paired_onDesk (action : Files.DeskM α) :
    Paired (TwinsSince same base a b) (onDesk action) := by
  intro e f hef
  have hrun (e : Engine) : (onDesk action).run e =
    ((action.run e.desk).1, { e with desk := (action.run e.desk).2 }) := rfl
  rw [hrun, hrun, hef.desk_eq]
  refine ⟨rfl, ⟨hef.memory, ?_⟩, hef.left.trans ⟨rfl, rfl, List.prefix_rfl⟩,
    hef.right.trans ⟨rfl, rfl, List.prefix_rfl⟩⟩
  exact congrArg (fun e : Engine => { e with desk := (action.run f.desk).2 }) hef.progress

theorem paired_onPapers (action : Files.PapersM α) :
    Paired (TwinsSince same base a b) (onPapers action) := by
  intro e f hef
  rw [run_onPapers, run_onPapers, hef.papers_eq]
  refine ⟨rfl, ⟨hef.memory, ?_⟩, hef.left.trans ⟨rfl, rfl, List.prefix_rfl⟩,
    hef.right.trans ⟨rfl, rfl, List.prefix_rfl⟩⟩
  exact congrArg (fun e : Engine => { e with
    desk := (action.run f.papers).2.desk
    copy := (action.run f.papers).2.copy }) hef.progress

/-- A message for the log. -/
theorem paired_message (c : Category) (message : String) : Paired (TwinsSince same base a b)
    (modify fun e => e.report c message : EngineM PUnit) :=
  paired_modify (fun _ _ h => ⟨h.memory.store, h.memory.fits, h.memory.clock, h.memory.draw⟩)
    (fun _ => rfl) fun _ => ⟨rfl, rfl, List.prefix_rfl⟩

instance : Likeness same base a.program (TwinsSince same base a b) where
  memory h := h.memory
  program h := h.left.program
  flow h := (congrArg Engine.flow h.progress :)
  withStore h hst hs := ⟨⟨⟨hst, hs, h.memory.clock, h.memory.draw⟩, h.progress⟩,
    h.left.trans ⟨rfl, rfl, List.prefix_rfl⟩, h.right.trans ⟨rfl, rfl, List.prefix_rfl⟩⟩
  withFlow calls taken loops h := h.change (g := fun e => { e with calls, taken, loops }) h.memory
    (fun _ => rfl) fun _ => ⟨rfl, rfl, List.prefix_rfl⟩
  report c message h := (paired_message c message _ _ h).2
  print line := (paired_message _ _).bind fun _ => (paired_onPapers _).bind fun _ =>
    paired_modify (fun _ _ h => h.memory) (fun _ => rfl) fun e =>
      ⟨rfl, rfl, [line], (Array.toList_push ..).symm⟩
  option {o} ho := by
    unfold applyOption
    cases o with
    | debug mask =>
      exact Couples.bind (paired_modify (fun _ _ h =>
        ⟨h.memory.store, h.memory.fits, h.memory.clock, h.memory.draw⟩) (fun _ => rfl) fun _ =>
          ⟨rfl, rfl, List.prefix_rfl⟩) fun _ => paired_message _ _
    | testPath directory =>
      exact Couples.bind (paired_modify (fun _ _ h => h.memory) (fun _ => rfl) fun _ =>
        ⟨rfl, rfl, List.prefix_rfl⟩) fun _ => paired_message _ _
    | outputFile path => cases ho

end Engine

end CommandScript
