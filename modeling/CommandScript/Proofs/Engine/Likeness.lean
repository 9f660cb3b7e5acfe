import CommandScript.Proofs.Engine.Clock
import CommandScript.Proofs.Engine.Visits

/-!
# Engines alike

Two runs of a program are compared by a relation of their engines. What a command needs of such a
relation is little: the engines have come to the same place of the program with memories alike, and
the relation outlasts the changes that commands make to both (`Engine.Likeness`). Whatever else it
says of the engines, of their files, their output or their logs, is its own affair.
-/

namespace CommandScript

/-- The option leaves the files alone. -/
def ScriptOption.isConfined : ScriptOption → Bool
  | .outputFile _ => false
  | .debug _ | .testPath _ => true

/-- The command keeps away from files, directories and pictures. -/
def Command.isConfined : Command → Bool
  | .run options => options.all (·.isConfined)
  | .fileOpen .. | .fileCreate _ | .fileClose | .fileRead _ | .fileWrite _ | .fileExists ..
  | .fileSize _ | .fileLines _ | .fileDelete _ | .changeDirectory _ | .makeDirectory _
  | .removeDirectory _ | .directory .. | .scan _ => false
  | _ => true

/-- All commands of the program keep away from files, directories and pictures. -/
def Program.isConfined (p : Program) : Bool :=
  p.commands.all (·.command.isConfined)

namespace Engine

/-! ### Changes of the store -/

section Changes

variable {same : Prop} {base : Store}

/-- A change of the store that looks at no moment and keeps the variables. -/
structure Timely (base : Store) (change : Stamp → Store → Checked Store) : Prop where
  timeless : ∀ stamp s, Store.timeless <$> change stamp s = change stamp.timeless s.timeless
  keeps : ∀ stamp s, base.Fits s → ∃ fitting, base.Keeps fitting (change stamp s)

theorem Timely.both {change : Stamp → Store → Checked Store} (h : Timely base change)
    {stamp stamp' : Stamp} (hline : stamp.line = stamp'.line) (hsame : same → stamp = stamp')
    {s t : Store} (hst : s.Alike same t) (hs : base.Fits s) :
    Checked.Both (fun x y => x.Alike same y ∧ base.Fits x) (change stamp s) (change stamp' t) := by
  have hboth : Checked.Both (fun x y => x.1 = y.1 ∧ x.2.Alike same y.2)
      ((fun u => ((), u)) <$> change stamp s) ((fun u => ((), u)) <$> change stamp' t) := by
    refine hst.both_change (f := fun stamp s => (fun u => ((), u)) <$> change stamp s)
      (fun stamp u => ?_) hline hsame
    rw [← h.timeless stamp u]
    cases change stamp u <;> rfl
  obtain ⟨fitting, hkeeps⟩ := h.keeps stamp s hs
  rcases hx : change stamp s with g | x <;> rcases hy : change stamp' t with g' | y <;>
    rw [hx, hy] at hboth
  · exact hboth
  · exact hboth.elim
  · exact hboth.elim
  · rw [hx] at hkeeps
    exact ⟨hboth.2, hkeeps⟩

theorem stamp_of_alike {m n : Memory} (h : m.Alike same base n) (line : Nat) :
    (m.stamp line).line = (n.stamp line).line ∧ (same → m.stamp line = n.stamp line) :=
  ⟨rfl, fun hs => by rw [Memory.stamp, Memory.stamp, h.clock hs]⟩

end Changes

/-! ### Related engines -/

/-- The operation does the same to related engines and leaves them related. -/
abbrev Paired {α : Type} (R : Engine → Engine → Prop) (x : EngineM α) : Prop :=
  Couples R x x

/-- A relation between engines that have come to the same place of a program, with memories alike. It
outlasts what a command that keeps away from files does to both of them. -/
class Likeness (same : outParam Prop) (base : outParam Store) (p : outParam Program)
    (R : Engine → Engine → Prop) : Prop where
  memory {e f : Engine} : R e f → e.memory.Alike same base f.memory
  program {e f : Engine} : R e f → e.program = p
  flow {e f : Engine} : R e f → e.flow = f.flow
  withStore {e f : Engine} {s t : Store} : R e f → s.Alike same t → base.Fits s →
    R { e with memory := { e.memory with store := s } }
      { f with memory := { f.memory with store := t } }
  withFlow {e f : Engine} (calls : List CommandScript.Frame) (taken : Assoc (Nat × Nat) Bool)
    (loops : List ActiveLoop) : R e f → R { e with calls, taken, loops } { f with calls, taken, loops }
  report {e f : Engine} (c : Category) (message : String) :
    R e f → R (e.report c message) (f.report c message)
  print (line : String) : Paired R (print line)
  option {o : ScriptOption} : o.isConfined = true → Paired R (applyOption o)

variable {same : Prop} {base : Store} {p : Program} {R : Engine → Engine → Prop} {α : Type}

variable [like : Likeness same base p R]

include like

namespace Likeness

variable {e f : Engine}

/-- As long as nothing but the memories of related engines changes, they are related by these. -/
theorem likeness_memory (e f : Engine) : Memory.Likeness same base fun m n =>
    R { e with memory := m } { f with memory := n } where
  alike h := memory h
  withStore h hst hs := withStore h hst hs
  report c message h := report c message h

theorem program_eq (h : R e f) : f.program = p :=
  (congrArg Flow.program (flow h)).symm.trans (program h)

theorem calls_eq (h : R e f) : e.calls = f.calls :=
  congrArg Flow.calls (flow h)

theorem taken_eq (h : R e f) : e.taken = f.taken :=
  congrArg Flow.taken (flow h)

theorem loops_eq (h : R e f) : e.loops = f.loops :=
  congrArg Flow.loops (flow h)

theorem depth_eq (h : R e f) : e.depth = f.depth :=
  congrArg List.length (calls_eq h)

theorem owner_eq (h : R e f) : e.owner = f.owner := by
  unfold owner
  rw [calls_eq h]

theorem viewpoint_eq (h : R e f) : e.viewpoint = f.viewpoint := by
  unfold viewpoint
  rw [owner_eq h, depth_eq h, loops_eq h]

theorem withCalls (h : R e f) (calls : List CommandScript.Frame) :
    R { e with calls } { f with calls } := by
  have hchanged := withFlow calls e.taken e.loops h
  rw [taken_eq h, loops_eq h] at hchanged ⊢
  exact hchanged

theorem withTaken (h : R e f) (taken : Assoc (Nat × Nat) Bool) :
    R { e with taken } { f with taken } := by
  have hchanged := withFlow e.calls taken e.loops h
  rw [calls_eq h, loops_eq h] at hchanged ⊢
  exact hchanged

theorem withLoops (h : R e f) (loops : List ActiveLoop) : R { e with loops } { f with loops } := by
  have hchanged := withFlow e.calls e.taken loops h
  rw [calls_eq h, taken_eq h] at hchanged ⊢
  exact hchanged

end Likeness

/-! ### Operations -/

theorem paired_report (c : Category) (message : String) :
    Paired R (modify fun e => e.report c message : EngineM PUnit) :=
  couples_modify fun _ _ h => like.report c message h

theorem paired_onCells (f : Cells → Cells) : Paired R (onCells f) :=
  couples_modify fun _ _ h => like.withStore h ((like.memory h).store.withCells f)
    ((like.memory h).fits.withCells _)

theorem couples_onMemory {action action' : MemoryM α}
    (h : ∀ (M : Memory → Memory → Prop) [Memory.Likeness same base M], Couples M action action') :
    Couples R (onMemory action) (onMemory action') := by
  intro e f hef
  have := Likeness.likeness_memory (R := R) e f
  exact h (fun m n => R { e with memory := m } { f with memory := n }) e.memory f.memory hef

theorem paired_seen {action : Viewpoint → MemoryM α}
    (h : ∀ v (M : Memory → Memory → Prop) [Memory.Likeness same base M], Viewpoint.Couple M (action v)) :
    Paired R (seen action) :=
  couples_get_bind fun e f hef => by
    rw [Likeness.viewpoint_eq hef]
    exact couples_onMemory (h _)

/-- Changes of the store that differ in the moments of writes at most. -/
theorem couples_onStore {action action' : StoreM α} [Atomic action] [Atomic action']
    (h : ∀ s t, s.Alike same t → base.Fits s → Checked.Both
      (fun x y => (x.1 = y.1 ∧ x.2.Alike same y.2) ∧ base.Fits x.2) (outcome action s)
        (outcome action' t)) :
    Couples R (onStore action) (onStore action') := by
  refine couples_onMemory fun M _ => couples_atomic fun m n hmn => ?_
  have halike : m.Alike same base n := Memory.Likeness.alike hmn
  rw [Memory.outcome_onStore, Memory.outcome_onStore]
  exact (h m.store n.store halike.store halike.fits).bind fun x y hxy =>
    ⟨hxy.1.1, Memory.Likeness.withStore hmn hxy.1.2 hxy.2⟩

theorem paired_change (line : Nat) {action : Stamp → StoreM Unit} [∀ stamp, Atomic (action stamp)]
    (h : Timely base fun stamp s => s.leaves (action stamp)) :
    Paired R (Engine.change line action) := by
  refine couples_get_bind fun e f hef => couples_onStore fun s t hst hs => ?_
  obtain ⟨hline, hsame⟩ := stamp_of_alike (like.memory hef) line
  exact (Checked.both_map_iff.mp (h.both hline hsame hst hs)).imp fun x y hxy => ⟨⟨rfl, hxy.1⟩, hxy.2⟩

theorem paired_number {f : Formula} (h : ∀ r ∈ f.references, same ∨ r.showsClock = false) :
    Paired R (number f) :=
  paired_seen fun v _ _ => v.couples_formula h

theorem paired_text {t : Argument} (h : ∀ r ∈ t.references, same ∨ r.showsClock = false) :
    Paired R (text t) :=
  paired_seen fun v _ _ => v.couples_text h

theorem paired_value {t : Argument} (h : ∀ r ∈ t.references, same ∨ r.showsClock = false) :
    Paired R (value t) :=
  paired_seen fun v _ _ => v.couples_argument h

theorem paired_truth {c : Condition} (h : ∀ r ∈ c.references, same ∨ r.showsClock = false)
    (htext : same ∨ c.isNoText base = true) : Paired R (truth c) :=
  paired_seen fun v _ _ => v.couples_condition h htext

/-- The old value of the target of an assignment. -/
theorem paired_old {target : String} (h : same ∨ Store.showsClock target = false)
    (owner : String) : Paired R (onMemory (MemoryM.read target owner)) :=
  couples_onMemory fun _ _ => couples_atomic fun _ _ hmn => Memory.both_read hmn owner h

theorem paired_store (target owner : String) (v : Value) (line : Nat) :
    Paired R (store target owner v line) := by
  refine couples_onMemory fun M _ => couples_atomic fun m n hmn => ?_
  have halike : m.Alike same base n := Memory.Likeness.alike hmn
  have htimely : Timely base fun stamp s => s.write target owner v stamp :=
    ⟨fun stamp s => s.timeless_write target owner stamp v,
      fun stamp s hs => ⟨_, hs.keeps_write target owner stamp v⟩⟩
  obtain ⟨hline, hsame⟩ := stamp_of_alike halike line
  have hboth : Checked.Both M (m.write target owner v line) (n.write target owner v line) := by
    rw [Memory.write_eq, Memory.write_eq]
    exact (htimely.both hline hsame halike.store halike.fits).bind fun s t hst =>
      Memory.Likeness.report _ _ (Memory.Likeness.withStore hmn hst.1 hst.2)
  exact (Checked.both_map_iff.mp hboth).imp fun x y hxy => ⟨rfl, hxy⟩

theorem paired_setTaken (ifIndex : Nat) (taken : Bool) : Paired R (setTaken ifIndex taken) :=
  couples_modify fun e f h => by
    rw [Likeness.taken_eq h, Likeness.depth_eq h]
    exact Likeness.withTaken h _

/-- A change of the loops in progress that goes by them and by the calls in progress. -/
theorem paired_withLoops {g : Engine → List ActiveLoop} (hg : ∀ e f, R e f → g e = g f) :
    Paired R (modify fun e => { e with loops := g e } : EngineM PUnit) :=
  couples_modify fun e f h => by
    rw [hg e f h]
    exact Likeness.withLoops h _

omit like in
theorem paired_applyOptions {options : List ScriptOption}
    (h : ∀ o ∈ options, Paired R (applyOption o)) : Paired R (applyOptions options) := by
  induction options with
  | nil => exact couples_pure
  | cons o options ih =>
    exact (h o List.mem_cons_self).bind fun _ => ih fun o ho => h o (List.mem_cons_of_mem _ ho)

end Engine

end CommandScript
