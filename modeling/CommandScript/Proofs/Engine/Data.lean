import CommandScript.Proofs.Engine.Arguments
import CommandScript.Proofs.Engine.Plain
import CommandScript.Proofs.Files.Desk

/-!
# The data of an engine

An engine holds the variables of a store (`Engine.Holds`) if its memory and the store that a reset goes
back to fit this store. The parts that commands are made of keep it so and stay where they are.
-/

namespace CommandScript

namespace Engine

/-- Where the next command stands. -/
def Flow.viewpoint (f : Flow) : Viewpoint where
  owner := match f.calls with
    | frame :: _ => frame.subroutine
    | [] => mainOwner
  depth := f.calls.length
  loops := f.loops

/-- What can be read where the next command stands. -/
def Flow.context (f : Flow) (s : Store) : Context := f.viewpoint.context s

/-- The engine holds the variables of a store and reads pictures in a certain way. -/
structure Holds (s : Store) (scan : String → Checked String) (e : Engine) : Prop where
  memory : s.Fits e.memory.store
  initial : s.Fits e.initial
  scan : e.scan = scan

/-- The fault is one of what reads pictures. -/
def ScanFault (scan : String → Checked String) (g : Fault) : Prop :=
  ∃ path, scan path = .error g

/-- The engine has come to the flow and holds the variables of the store. -/
def At (f : Flow) (s : Store) (scan : String → Checked String) (e : Engine) : Prop :=
  e.flow = f ∧ e.Holds s scan

variable {f : Flow} {s : Store} {scan : String → Checked String}

theorem Holds.withMemory {e : Engine} (h : e.Holds s scan) {m : Memory} (hm : s.Fits m.store) :
    ({ e with memory := m } : Engine).Holds s scan :=
  ⟨hm, h.initial, h.scan⟩

theorem At.viewpoint_eq {e : Engine} (h : At f s scan e) : e.viewpoint = f.viewpoint := by
  rw [← h.1]
  rfl

theorem At.owner_eq {e : Engine} (h : At f s scan e) : e.owner = f.viewpoint.owner :=
  congrArg Viewpoint.owner h.viewpoint_eq

section Parts

variable {α : Type} {Q : α → Prop} {E : Fault → Prop}

theorem stays_onMemory {action : MemoryM α} (h : Stays (fun m => s.Fits m.store) action Q E) :
    Stays (At f s scan) (onMemory action) Q E := by
  intro e he
  have hm := h e.memory he.2.memory
  have hrun : (onMemory action).run e =
    ((action.run e.memory).1, { e with memory := (action.run e.memory).2 }) := rfl
  rw [hrun]
  rcases hr : action.run e.memory with ⟨g | a, m⟩ <;> rw [hr] at hm
  · exact ⟨⟨he.1, he.2.withMemory hm.1⟩, hm.2⟩
  · exact ⟨⟨he.1, he.2.withMemory hm.1⟩, hm.2⟩

theorem stays_onStore {action : StoreM α} [Atomic action]
    (h : ∀ t, s.Fits t → (outcome action t).Yields (fun r => s.Fits r.2 ∧ Q r.1) E) :
    Stays (At f s scan) (onStore action) Q E :=
  stays_onMemory <| stays_atomic fun m hm => by
    rw [Memory.outcome_onStore]
    exact (h m.store hm).bind fun _ hr => hr

theorem stays_onDesk {action : Files.DeskM α} {p : Prop} (h : Files.Desk.FailsByIo action) :
    Stays (At f s scan) (onDesk action) (fun _ => True) (Fault.Allowed p) := by
  intro e he
  have hd := h e.desk trivial
  have hrun : (onDesk action).run e =
    ((action.run e.desk).1, { e with desk := (action.run e.desk).2 }) := rfl
  rw [hrun]
  rcases hr : action.run e.desk with ⟨g | a, d⟩ <;> rw [hr] at hd
  · exact ⟨⟨he.1, he.2.memory, he.2.initial, he.2.scan⟩,
      Fault.allowed_of_kind hd.2 nofun nofun⟩
  · exact ⟨⟨he.1, he.2.memory, he.2.initial, he.2.scan⟩, trivial⟩

theorem stays_seen {action : Viewpoint → MemoryM α}
    (h : Stays (fun m => s.Fits m.store) (action f.viewpoint) Q E) :
    Stays (At f s scan) (seen action) Q E :=
  stays_get_bind fun e he => by
    rw [he.viewpoint_eq]
    exact stays_onMemory h

end Parts

variable {p : Prop}

theorem stays_report (c : Category) (message : String) :
    Stays (At f s scan) (modify fun e => e.report c message : EngineM PUnit) (fun _ => True)
      (Fault.Allowed p) :=
  stays_modify (fun _ he => ⟨he.1, he.2.withMemory he.2.memory⟩) trivial

theorem stays_onCells (g : Cells → Cells) :
    Stays (At f s scan) (onCells g) (fun _ => True) (Fault.Allowed p) :=
  stays_modify (fun _ he => ⟨he.1, he.2.withMemory (he.2.memory.withCells _)⟩) trivial

theorem stays_number (g : Formula) :
    Stays (At f s scan) (number g) (fun _ => True)
      (Fault.Allowed ((f.context s).checkFormula g = .ok ())) :=
  stays_seen (Viewpoint.stays_formula g)

theorem stays_text (a : Argument) :
    Stays (At f s scan) (text a) (fun _ => True)
      (Fault.Allowed (∃ t, (f.context s).argumentType a = .ok t)) :=
  stays_seen (Viewpoint.stays_text a)

theorem stays_value (a : Argument) :
    Stays (At f s scan) (value a) (fun v => ∀ t, (f.context s).argumentType a = .ok t → v.type = t)
      (Fault.Allowed (∃ t, (f.context s).argumentType a = .ok t)) :=
  stays_seen (Viewpoint.stays_argument a)

theorem stays_truth (c : Condition) :
    Stays (At f s scan) (truth c) (fun _ => True) (Fault.Allowed False) :=
  stays_seen (Viewpoint.stays_condition c)

theorem fair_count (n : Int64) : (count n).Fair p :=
  Checked.yields_ite (fun _ => Fault.allowed_range) fun _ => trivial

theorem stays_counted (g : Formula) :
    Stays (At f s scan) (counted g) (fun _ => True)
      (Fault.Allowed ((f.context s).checkFormula g = .ok ())) :=
  (stays_number g).bind fun n _ => stays_lift (fair_count n)

/-! ### Options -/

/-- The invariant does not look at what an option changes: the log, the desk but for its open file, the
copy of the output and the base directory that a reset goes back to. -/
def PassesOptions (I : Engine → Prop) : Prop :=
  ∀ (e : Engine) (log : Log) (desk : Files.Desk) (copy : Option Files.Handle) (base : String),
    desk.opened = e.desk.opened → I e → I { e with memory := { e.memory with log }, desk, copy, base }

theorem passesOptions_at : PassesOptions (At f s scan) :=
  fun _ _ _ _ _ _ he => ⟨he.1, he.2.memory, he.2.initial, he.2.scan⟩

section Options

variable {I : Engine → Prop} (hI : PassesOptions I)

include hI

/-- What is done with tree and copy has only the faults that files have. -/
theorem stays_onPapers {α : Type} {action : Files.PapersM α} (h : Files.Papers.Copying action) :
    Stays I (onPapers action) (fun _ => True) (Fault.Allowed p) := by
  intro e he
  have hp := h (fun p => p.desk.opened = e.desk.opened) (fun _ _ _ h => h) e.papers rfl
  rw [run_onPapers]
  rcases hr : action.run e.papers with ⟨g | a, p⟩ <;> rw [hr] at hp
  · exact ⟨hI e e.memory.log _ _ e.base hp.1 he, Fault.allowed_of_kind hp.2 nofun nofun⟩
  · exact ⟨hI e e.memory.log _ _ e.base hp.1 he, trivial⟩

theorem stays_applyOption (o : ScriptOption) :
    Stays I (applyOption o) (fun _ => True) (Fault.Allowed p) := by
  have report (c : Category) (message : String) : Stays I
      (modify fun e => e.report c message : EngineM PUnit) (fun _ => True) (Fault.Allowed p) :=
    stays_modify (fun e he => hI e _ e.desk e.copy e.base rfl he) trivial
  unfold applyOption
  cases o with
  | debug mask =>
    exact Stays.bind (stays_modify (Q := fun _ => True)
      (fun e he => hI e _ e.desk e.copy e.base rfl he) trivial) fun _ _ => report _ _
  | testPath directory =>
    exact Stays.bind (stays_modify (Q := fun _ => True)
      (fun e he => hI e e.memory.log _ e.copy e.base rfl he) trivial) fun _ _ => report _ _
  | outputFile path =>
    exact (stays_onPapers hI (Files.Papers.copying_copyTo path)).bind fun _ _ => report _ _

theorem stays_applyOptions (options : List ScriptOption) :
    Stays I (applyOptions options) (fun _ => True) (Fault.Allowed p) := by
  induction options with
  | nil => exact stays_pure trivial
  | cons o options ih => exact (stays_applyOption hI o).bind fun _ _ => ih

theorem stays_prepare (settings : Settings) :
    Stays I (prepare settings) (fun _ => True) (Fault.Allowed p) := by
  have rest : Stays I (do
      applyOptions (← get).program.startup
      modify fun e => { e with base := e.desk.base } : EngineM Unit) (fun _ => True)
      (Fault.Allowed p) :=
    stays_get_bind fun e _ => (stays_applyOptions hI e.program.startup).bind fun _ _ =>
      stays_modify (fun e he => hI e e.memory.log e.desk e.copy e.desk.base rfl he) trivial
  exact stays_ite (fun _ => (stays_applyOption hI _).bind fun _ _ => rest) fun _ => rest

end Options

theorem stays_print (line : String) :
    Stays (At f s scan) (print line) (fun _ => True) (Fault.Allowed p) :=
  (stays_report _ _).bind fun _ _ =>
    (stays_onPapers passesOptions_at (Files.Papers.copying_copyLine line)).bind fun _ _ =>
      stays_modify (fun _ he => ⟨he.1, he.2.memory, he.2.initial, he.2.scan⟩) trivial

end Engine

end CommandScript
