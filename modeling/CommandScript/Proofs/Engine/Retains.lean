import CommandScript.Proofs.Engine.Visits
import CommandScript.Proofs.Evaluation
import CommandScript.Proofs.Store.Retains

/-!
# A step that fails changes no variable

A command works out what it needs before it writes. Working out leaves the variables as they are
(`Reads`), and behind the write of a command nothing fails, so that a fault finds all variables as
they were (`Saves`). The store operations themselves hand no store back where they fail.
-/

namespace CommandScript

section Reading

variable {s : Store} {α β : Type}

namespace Memory

/-- Run on the memory, the operation leaves the variables as they are, whatever comes of it. -/
abbrev Reads (s : Store) (x : MemoryM α) : Prop :=
  Stays (fun m => s.Retains m.store) x (fun _ => True) fun _ => True

theorem retains_read {m m' : Memory} {name owner : String} {w : Value}
    (h : m.read name owner = .ok (w, m')) : m.store.Retains m'.store := by
  rw [read_eq] at h
  simp only [Checked.bind_ok] at h
  obtain ⟨⟨reading, store⟩, hr, h⟩ := h
  have := Store.retains_read hr
  dsimp only at h
  split at h
  · cases h
    exact this
  · cases h
    exact this

theorem reads_read (name owner : String) : Reads s (MemoryM.read name owner) :=
  stays_atomic fun _ hm => Checked.yields_of
    (fun _ hr => ⟨hm.trans (retains_read hr), trivial⟩) fun _ _ => trivial

theorem reads_checked (x : Checked α) : Reads s (liftM x) :=
  stays_lift x.yields_trivial

end Memory

namespace Viewpoint

open Memory

variable (v : Viewpoint)

theorem reads_read (name : String) : Reads s (v.read name) :=
  Memory.reads_read name v.owner

theorem reads_position (b : Bound) : Reads s (v.position b) := by
  cases b with
  | position n => exact stays_pure trivial
  | named name =>
    have place (n : Int64) : Reads s
        (if n.toInt < 0 then throw (.cause .runtime s!"index {n} is negative") >>= fun _ : Unit =>
          pure n.toInt.toNat else pure n.toInt.toNat : MemoryM Nat) :=
      stays_ite (fun _ _ hm => ⟨hm, trivial⟩) fun _ => stays_pure trivial
    unfold position
    dsimp only
    split
    · exact place _
    · exact (v.reads_read name).bind fun w _ => (reads_checked _).bind fun n _ => place n

theorem reads_positions (i : Index) : Reads s (v.positions i) := by
  cases i with
  | single b => exact (v.reads_position b).bind fun _ _ => stays_pure trivial
  | range first last =>
    exact (v.reads_position first).bind fun _ _ =>
      (v.reads_position last).bind fun _ _ => stays_pure trivial

theorem reads_lookPlain (r : Reference) : Reads s (v.lookPlain r) := by
  refine (v.reads_read r.name).bind fun w _ => ?_
  dsimp only
  split
  · exact reads_checked _
  · refine (v.reads_positions _).bind fun positions _ => ?_
    obtain ⟨first, last⟩ := positions
    dsimp only
    split
    · exact (reads_checked _).bind fun _ _ => reads_checked _
    · exact (reads_checked _).bind fun _ _ => reads_checked _

theorem reads_look (r : Reference) : Reads s (v.look r) := by
  unfold look
  split
  · exact reads_checked _
  · split
    · exact v.reads_lookPlain r
    · refine stays_ite (fun _ => ?_) fun _ => stays_ite (fun _ => ?_) fun _ =>
        stays_ite (fun _ => stays_ite (fun _ => v.reads_read _) fun _ => ?_) fun _ => v.reads_lookPlain r
      · refine stays_get_bind fun m _ => (reads_checked _).bind fun found _ => ?_
        split
        all_goals exact stays_pure trivial
      · exact stays_get_bind fun m _ => reads_checked _
      · exact stays_get_bind fun m _ => (reads_checked _).bind fun _ _ => stays_pure trivial

theorem reads_formula (f : Formula) : Reads s (f.evaluate (lookInteger v.look)) :=
  couples_self_iff.mp <| CommandScript.couples_formula fun r _ =>
    couples_self_iff.mpr (v.reads_look r)

theorem reads_argument (a : Argument) : Reads s (a.evaluate v.look) :=
  couples_self_iff.mp <| CommandScript.couples_argument fun r _ =>
    couples_self_iff.mpr (v.reads_look r)

theorem reads_text (a : Argument) : Reads s (a.evaluateText v.look) :=
  (v.reads_argument a).bind fun _ _ => stays_pure trivial

theorem reads_condition (c : Condition) : Reads s (c.evaluate v.look) := by
  have hlook (r : Reference) := couples_self_iff.mpr (v.reads_look (s := s) r)
  refine couples_self_iff.mp
    (CommandScript.couples_condition (fun _ _ r _ => hlook r) fun o _ _ => ?_)
  exact (couples_operand fun r _ => hlook r).bind fun w => couples_followed fun _ r _ => hlook r

end Viewpoint

end Reading

namespace Engine

variable {s : Store} {α β : Type}

/-- The operation leaves the variables as they are, whatever comes of it. -/
abbrev Reads (s : Store) (x : EngineM α) : Prop :=
  Stays (fun e => s.Retains e.memory.store) x (fun _ => True) fun _ => True

/-- Where the operation fails, it leaves the variables as they were. -/
abbrev Saves (s : Store) (x : EngineM α) : Prop :=
  Ensures (fun e => s.Retains e.memory.store) x (fun _ _ => True) fun _ e => s.Retains e.memory.store

/-- The operation does not fail. -/
abbrev Succeeds (x : EngineM α) : Prop :=
  Ensures (fun _ => True) x (fun _ _ => True) fun _ _ => False

variable {x : EngineM α} {f : α → EngineM β}

theorem Reads.saves (h : Reads s x) : Saves s x :=
  Ensures.imp h (fun _ h => h) (fun _ _ _ => trivial) fun _ _ h => h.1

theorem Reads.bind_saves (h : Reads s x) (hf : ∀ a, Saves s (f a)) : Saves s (x >>= f) :=
  Ensures.bind (Ensures.imp h (fun _ h => h) (fun _ _ h => h.1) fun _ _ h => h.1) hf

/-- Behind a write nothing may fail. -/
theorem Saves.bind_succeeds (h : Saves s x) (hf : ∀ a, Succeeds (f a)) : Saves s (x >>= f) :=
  Ensures.bind h fun a => (hf a).imp (fun _ h => h) (fun _ _ h => h) fun _ _ h => h.elim

theorem Succeeds.bind (h : Succeeds x) (hf : ∀ a, Succeeds (f a)) : Succeeds (x >>= f) :=
  Ensures.bind h hf

theorem Succeeds.saves (h : Succeeds x) : Saves s x :=
  Ensures.imp h (fun _ _ => trivial) (fun _ _ h => h) fun _ _ h => h.elim

theorem succeeds_pure {a : α} : Succeeds (pure a : EngineM α) :=
  fun _ _ => trivial

theorem succeeds_modify (g : Engine → Engine) : Succeeds (modify g : EngineM PUnit) :=
  fun _ _ => trivial

theorem reads_checked (y : Checked α) : Reads s (liftM y : EngineM α) :=
  stays_lift y.yields_trivial

theorem reads_throw (g : Fault) : Reads s (throw g : EngineM α) :=
  stays_throw trivial

theorem reads_get_bind {f : Engine → EngineM α} (h : ∀ e, Reads s (f e)) : Reads s (get >>= f) :=
  stays_get_bind fun e _ => h e

theorem saves_get_bind {f : Engine → EngineM α} (h : ∀ e, Saves s (f e)) : Saves s (get >>= f) :=
  ensures_read_bind fun e _ => h e

theorem saves_ite {p : Prop} [Decidable p] {y : EngineM α} (hx : p → Saves s x)
    (hy : ¬p → Saves s y) : Saves s (if p then x else y) :=
  ensures_ite hx hy

/-- A change that does not touch the store. -/
theorem reads_modify {g : Engine → Engine} (h : ∀ e, (g e).memory.store = e.memory.store) :
    Reads s (modify g : EngineM PUnit) :=
  stays_modify (fun e he => by rwa [h e]) trivial

theorem reads_modify_bind {g : Engine → Engine} {k : PUnit → EngineM α}
    (h : ∀ e, (g e).memory.store = e.memory.store) (hk : Reads s (k ⟨⟩)) :
    Reads s (modify g >>= k) :=
  Stays.bind (reads_modify h) fun _ _ => hk

theorem reads_onMemory {action : MemoryM α} (h : Memory.Reads s action) :
    Reads s (onMemory action) := by
  intro e he
  have hm := h e.memory he
  have hrun : (onMemory action).run e =
    ((action.run e.memory).1, { e with memory := (action.run e.memory).2 }) := rfl
  rw [hrun]
  rcases hr : action.run e.memory with ⟨g | a, m⟩ <;> rw [hr] at hm
  · exact hm
  · exact hm

theorem reads_seen {action : Viewpoint → MemoryM α} (h : ∀ v, Memory.Reads s (action v)) :
    Reads s (seen action) :=
  reads_get_bind fun _ => reads_onMemory (h _)

theorem reads_onDesk (action : Files.DeskM α) : Reads s (onDesk action) := by
  intro e he
  have hrun : (onDesk action).run e =
    ((action.run e.desk).1, { e with desk := (action.run e.desk).2 }) := rfl
  rw [hrun]
  rcases (action.run e.desk) with ⟨g | a, d⟩
  · exact ⟨he, trivial⟩
  · exact ⟨he, trivial⟩

theorem reads_onPapers (action : Files.PapersM α) : Reads s (onPapers action) := by
  intro e he
  rw [run_onPapers]
  rcases action.run e.papers with ⟨g | a, p⟩
  · exact ⟨he, trivial⟩
  · exact ⟨he, trivial⟩

/-- What changes nothing where it fails may be the write of a command. -/
theorem saves_onMemory (action : MemoryM α) [Atomic action] : Saves s (onMemory action) := by
  intro e he
  have hrun : (onMemory action).run e =
    ((action.run e.memory).1, { e with memory := (action.run e.memory).2 }) := rfl
  rw [hrun, Atomic.run_eq]
  rcases outcome action e.memory with g | ⟨a, m⟩
  · exact he
  · trivial

theorem saves_onStore (action : StoreM α) [Atomic action] : Saves s (onStore action) :=
  saves_onMemory _

theorem saves_change (line : Nat) (f : Stamp → StoreM Unit) [∀ stamp, Atomic (f stamp)] :
    Saves s (change line f) :=
  saves_get_bind fun _ => saves_onStore _

theorem succeeds_onCells (g : Cells → Cells) : Succeeds (onCells g) :=
  succeeds_modify _

theorem reads_number (f : Formula) : Reads s (number f) :=
  reads_seen fun v => v.reads_formula f

theorem reads_text (a : Argument) : Reads s (text a) :=
  reads_seen fun v => v.reads_text a

theorem reads_value (a : Argument) : Reads s (value a) :=
  reads_seen fun v => v.reads_argument a

theorem reads_truth (c : Condition) : Reads s (truth c) :=
  reads_seen fun v => v.reads_condition c

theorem reads_indexed (index : Bound) (item : Argument) : Reads s (indexed index item) :=
  reads_seen fun v => (v.reads_position index).bind fun _ _ =>
    (v.reads_argument item).bind fun _ _ => stays_pure trivial

theorem reads_counted (f : Formula) : Reads s (counted f) :=
  (reads_number f).bind fun _ _ => reads_checked _

theorem reads_readOld (target owner : String) :
    Reads s (onMemory (MemoryM.read target owner)) :=
  reads_onMemory (Memory.reads_read target owner)

/-! ### Options -/

/-- A line that the copy does not take is not among what was printed, but it is in the log. -/
theorem saves_print (line : String) : Saves s (print line) :=
  Reads.saves <| reads_modify_bind (fun _ => rfl) <|
    (reads_onPapers _).bind fun _ _ => reads_modify fun _ => rfl

theorem reads_applyOptions (options : List ScriptOption) : Reads s (applyOptions options) := by
  have report (o : ScriptOption) : Reads s
      (modify fun e => e.report .props s!"option applied: {o.shown}" : EngineM PUnit) :=
    reads_modify fun _ => rfl
  induction options with
  | nil => exact stays_pure trivial
  | cons o options ih =>
    refine Stays.bind (Q := fun _ => True) ?_ fun _ _ => ih
    unfold applyOption
    cases o with
    | debug mask => exact reads_modify_bind (fun _ => rfl) (report _)
    | testPath directory => exact reads_modify_bind (fun _ => rfl) (report _)
    | outputFile path => exact (reads_onPapers _).bind fun _ _ => report _

/-! ### Assignment -/

theorem reads_assignedNumber (target owner : String) (op : AssignOp) (f : Formula) :
    Reads s (assignedNumber target owner op f) :=
  (reads_number f).bind fun _ _ => stays_ite (fun _ => stays_pure trivial) fun _ =>
    (reads_readOld target owner).bind fun _ _ => (reads_checked _).bind fun _ _ => reads_checked _

theorem reads_assignedTruth (target owner : String) (op : AssignOp) (c : Condition) :
    Reads s (assignedTruth target owner op c) := by
  refine (reads_truth c).bind fun _ _ => ?_
  dsimp only
  split
  · exact stays_pure trivial
  all_goals first
    | exact reads_throw _
    | exact ((reads_readOld target owner).bind fun _ _ => reads_checked _).bind fun _ _ =>
        stays_pure trivial

theorem reads_assignedText (target owner : String) (op : AssignOp) (a : Argument) :
    Reads s (assignedText target owner op a) :=
  (reads_text a).bind fun _ _ => stays_ite
    (fun _ => (reads_readOld target owner).bind fun _ _ => stays_pure trivial)
    fun _ => stays_pure trivial

theorem saves_store (target owner : String) (v : Value) (line : Nat) :
    Saves s (store target owner v line) :=
  saves_onMemory _

theorem saves_assign (line : Nat) (target : String) (op : AssignOp) (right : RightSide) :
    Saves s (assign line target op right) := by
  refine saves_get_bind fun e => (reads_checked _).bind_saves fun t => ?_
  cases right with
  | number f =>
    refine (reads_assignedNumber _ _ _ _).bind_saves fun _ => ?_
    refine saves_ite (fun _ => ?_) fun _ => saves_store _ _ _ _
    exact (reads_checked _).bind_saves fun _ => saves_store _ _ _ _
  | truth c => exact (reads_assignedTruth _ _ _ _).bind_saves fun _ => saves_store _ _ _ _
  | text a => exact (reads_assignedText _ _ _ _).bind_saves fun _ => saves_store _ _ _ _
  | entries a =>
    refine (reads_value a).bind_saves fun v => saves_ite (fun _ => ?_) fun _ =>
      saves_ite (fun _ => saves_change _ _) fun _ => saves_change _ _
    exact (reads_checked _).bind_saves fun _ => saves_store _ _ _ _

/-! ### Chains, loops and subroutines -/

theorem reads_setTaken (index : Nat) (b : Bool) : Reads s (setTaken index b) :=
  reads_modify fun _ => rfl

theorem reads_isTaken (index : Nat) : Reads s (isTaken index) := by
  refine reads_get_bind fun e => ?_
  split
  · exact stays_pure trivial
  · exact reads_throw _

theorem reads_executeIf (index : Nat) (c : Condition) : Reads s (executeIf index c) := by
  refine (reads_truth c).bind fun b _ => (reads_setTaken index b).bind fun _ _ => ?_
  refine stays_ite (fun _ => stays_pure trivial) fun _ => reads_get_bind fun e => ?_
  exact (reads_checked _).bind fun _ _ => (reads_checked _).bind fun _ _ => stays_pure trivial

theorem reads_executeBranch (index : Nat) (c : Option Condition) :
    Reads s (executeBranch index c) := by
  have rest (ifIndex following : Nat) (holds : Bool) : Reads s (do
      if !holds then return .jump following
      setTaken ifIndex true
      return .next : EngineM Move) :=
    stays_ite (fun _ => stays_pure trivial) fun _ =>
      (reads_setTaken _ _).bind fun _ _ => stays_pure trivial
  refine reads_get_bind fun e => (reads_checked _).bind fun chain _ => ?_
  refine (reads_checked _).bind fun ending _ => (reads_checked _).bind fun following _ => ?_
  refine (reads_isTaken _).bind fun _ _ => stays_ite (fun _ => stays_pure trivial) fun _ => ?_
  cases c with
  | none => exact Stays.bind (stays_pure (Q := fun _ => True) trivial) fun _ _ => rest _ _ _
  | some c => exact (reads_truth c).bind fun _ _ => rest _ _ _

theorem reads_executeEndIf (index : Nat) : Reads s (executeEndIf index) :=
  stays_get_bind fun _ he => (reads_checked _).bind fun _ _ => fun _ _ => ⟨he, trivial⟩

theorem reads_beginLoop (id : LoopId) : Reads s (beginLoop id) := by
  refine reads_get_bind fun e => (reads_checked _).bind fun loop _ => ?_
  refine reads_modify_bind (fun _ => rfl) ((reads_number _).bind fun start _ => ?_)
  refine reads_modify_bind (fun _ => rfl) ((reads_number _).bind fun stop _ => ?_)
  refine stays_ite (fun _ => stays_pure trivial) fun _ => reads_modify_bind (fun _ => rfl) ?_
  exact (reads_checked _).bind fun _ _ => stays_pure trivial

theorem reads_findRun (id : LoopId) : Reads s (findRun id) := by
  refine reads_get_bind fun e => ?_
  dsimp only
  split
  · exact stays_pure trivial
  · exact reads_throw _

theorem reads_advanceLoop (id : LoopId) : Reads s (advanceLoop id) := by
  refine (reads_findRun id).bind fun found _ => ?_
  obtain ⟨after, run, before⟩ := found
  refine reads_get_bind fun e => (reads_checked _).bind fun loop _ => (reads_number _).bind fun step _ => ?_
  refine stays_ite (fun _ => (reads_throw (α := Unit) _).bind fun _ _ => ?_) fun _ => ?_
  all_goals
    split
    · exact reads_throw _
    · refine reads_modify_bind (fun _ => rfl) ((reads_number _).bind fun stop _ => ?_)
      refine stays_ite (fun _ => stays_pure trivial) fun _ => reads_modify_bind (fun _ => rfl) ?_
      exact (reads_checked _).bind fun _ _ => stays_pure trivial

theorem reads_leaveLoop (id : LoopId) : Reads s (leaveLoop id) := by
  refine (reads_findRun id).bind fun _ _ => reads_modify_bind (fun _ => rfl) ?_
  refine reads_get_bind fun e => (reads_checked _).bind fun loop _ => ?_
  exact (reads_checked _).bind fun _ _ => stays_pure trivial

/-- Only a return from no subroutine fails, and it has written nothing. -/
theorem saves_returnWith (v : Option String) : Saves s (returnWith v) := by
  refine saves_get_bind fun e => ?_
  split
  · exact (reads_throw _).saves
  · refine Succeeds.saves ?_
    refine Succeeds.bind (fun _ _ => trivial) fun _ => ?_
    cases v with
    | none => exact (succeeds_modify _).bind fun _ => succeeds_pure
    | some v =>
      exact (succeeds_onCells _).bind fun _ => (succeeds_modify _).bind fun _ => succeeds_pure

/-! ### Arrays and files -/

theorem saves_changeArray (line : Nat) (f : String → Stamp → StoreM Unit)
    [∀ owner stamp, Atomic (f owner stamp)] : Saves s (changeArray line f) :=
  (saves_get_bind fun _ => saves_change _ _).bind_succeeds fun _ => succeeds_pure

theorem saves_filterArray (line : Nat) (array : String) (spec : FilterSpec) :
    Saves s (filterArray line array spec) := by
  refine saves_get_bind fun e => ?_
  have select (f : Filter) : Saves s (do
      let n ← onStore (StoreM.filter array e.owner f)
      modify fun e => e.report .vars s!"FILTER {array}: {n} selected" : EngineM Unit) :=
    (saves_onStore _).bind_succeeds fun _ => succeeds_modify _
  cases spec with
  | apply =>
    exact saves_get_bind fun _ => (saves_onStore _).bind_succeeds fun _ => succeeds_modify _
  | text inverted anchor a => exact (reads_text a).bind_saves fun t => select _
  | number r f => exact (reads_number f).bind_saves fun n => select _

theorem saves_fileCommand (command : Command) : Saves s (fileCommand command) := by
  have onPath {β : Type} (path : Argument) {action : String → Files.DeskM β}
      {f : β → EngineM Unit} (hf : ∀ b, Succeeds (f b)) :
      Saves s (do
        let path ← text path
        let b ← onDesk (action path)
        f b : EngineM Unit) :=
    (reads_text path).bind_saves fun _ => (reads_onDesk _).bind_saves fun b => (hf b).saves
  have desk (path : Argument) (action : String → Files.DeskM Unit) : Saves s (do
      let path ← text path
      onDesk (action path) : EngineM Unit) :=
    Reads.saves ((reads_text path).bind fun _ _ => reads_onDesk _)
  unfold fileCommand
  cases command <;> dsimp only
  case fileOpen path mode => exact desk path _
  case fileCreate path => exact desk path _
  case fileClose => exact (reads_onDesk _).saves
  case fileRead n =>
    have read (n : Option Nat) : Saves s (do
        let lines ← onDesk (Files.Desk.readLines n)
        onCells fun cells => { cells with status := !lines.isEmpty, response := lines } :
          EngineM Unit) :=
      (reads_onDesk _).bind_saves fun _ => (succeeds_onCells _).saves
    cases n with
    | some f =>
      exact Reads.bind_saves (Stays.map (reads_counted f) fun _ _ => trivial) fun _ => read _
    | none => exact Reads.bind_saves (stays_pure trivial) fun _ => read _
  case fileWrite a => exact desk a _
  case fileExists path check =>
    exact (reads_text path).bind_saves fun _ => saves_get_bind fun _ => (succeeds_onCells _).saves
  case fileSize path => exact onPath path fun n => succeeds_onCells _
  case fileLines path => exact onPath path fun n => succeeds_onCells _
  case fileDelete path => exact desk path _
  case changeDirectory path => exact desk path _
  case makeDirectory path => exact desk path _
  case removeDirectory path => exact desk path _
  case directory path wanted => exact onPath path fun n => succeeds_onCells _
  case scan path =>
    exact (reads_text path).bind_saves fun _ => saves_get_bind fun _ =>
      (reads_checked _).bind_saves fun _ => (succeeds_onCells _).saves
  all_goals exact (reads_throw _).saves

/-! ### All commands -/

theorem saves_andNext {action : EngineM Unit} (h : Saves s action) : Saves s (andNext action) :=
  h.bind_succeeds fun _ => succeeds_pure

theorem saves_execute (entry : Entry) : Saves s (execute entry) := by
  unfold execute
  cases entry.command <;> dsimp only
  case allocate => exact succeeds_pure.saves
  case set target op right => exact saves_andNext (saves_assign _ _ _ _)
  case setRandom f => exact saves_andNext ((reads_number f).bind_saves fun _ => saves_onStore _)
  case print a =>
    exact saves_andNext ((reads_text a).bind_saves fun line => saves_print line)
  case run options => exact saves_andNext (reads_applyOptions options).saves
  case if_ c => exact (reads_executeIf _ c).saves
  case elseIf c => exact (reads_executeBranch _ _).saves
  case else_ => exact (reads_executeBranch _ _).saves
  case endIf => exact (reads_executeEndIf _).saves
  case for_ id => exact (reads_beginLoop id).saves
  case next id => exact (reads_advanceLoop id).saves
  case skip id => exact (reads_advanceLoop id).saves
  case endFor id => exact (reads_advanceLoop id).saves
  case skipIf id c =>
    exact Reads.saves ((reads_truth c).bind fun _ _ => stays_ite (fun _ => reads_advanceLoop id)
      fun _ => stays_pure trivial)
  case break_ id => exact (reads_leaveLoop id).saves
  case breakIf id c =>
    exact Reads.saves ((reads_truth c).bind fun _ _ => stays_ite (fun _ => reads_leaveLoop id)
      fun _ => stays_pure trivial)
  case sub name last => exact succeeds_pure.saves
  case endSub => exact saves_returnWith none
  case gosub name target =>
    exact ((succeeds_modify _).bind fun _ => (succeeds_modify _).bind fun _ => succeeds_pure).saves
  case return_ v =>
    cases v with
    | none => exact saves_returnWith none
    | some a => exact (reads_text a).bind_saves fun v => saves_returnWith (some v)
  case endMain => exact succeeds_pure.saves
  case exit => exact succeeds_pure.saves
  case insert array index item =>
    exact (reads_indexed index item).bind_saves fun _ => saves_changeArray _ _
  case append array item => exact (reads_value item).bind_saves fun _ => saves_changeArray _ _
  case modify array index item =>
    exact (reads_indexed index item).bind_saves fun _ => saves_changeArray _ _
  case remove array index =>
    exact (reads_seen fun v => v.reads_positions index).bind_saves fun _ => saves_changeArray _ _
  case truncate array n => exact (reads_counted n).bind_saves fun _ => saves_changeArray _ _
  case pop array n => exact (reads_counted n).bind_saves fun _ => saves_changeArray _ _
  case clear name => exact saves_changeArray _ _
  case filter array spec => exact saves_andNext (saves_filterArray _ array spec)
  case reset array => exact saves_changeArray _ _
  all_goals exact saves_andNext (saves_fileCommand _)

theorem retains_of_step_error {e e' : Engine} {g : Fault} (h : e.step = (.error g, e')) :
    e.memory.store.Retains e'.memory.store := by
  rcases e.step_cases with hs | ⟨-, hs⟩ | ⟨entry, m, e₁, -, hx, hs⟩ | ⟨entry, g', e₁, ⟨-, hx⟩, hs⟩ <;>
    rw [hs] at h
  · cases h
  · obtain ⟨p, -, rfl⟩ := refused_of_finish h
    exact .refl _
  · cases m with
    | next | jump target => cases h
    | exit =>
      obtain ⟨-, rfl⟩ := eq_of_gives_exit hx
      obtain ⟨p, -, rfl⟩ := refused_of_finish h
      exact .refl _
  · have hsaves := (saves_execute entry).of_error (s := { e with skipBreakpoint := false })
      (Store.Retains.refl e.memory.store) hx
    rw [stopOn_eq] at h
    cases h
    exact hsaves

/-- What fails changes no variable. An operation of a store that ends in a fault leaves the store
altogether as it was. Behind the step of a command that does, every variable of every owner has its
value, its type, its last write and its mask, and the reserved variables hold what they held; only marks
of warnings and the place of the generator may have changed. -/
theorem unchanged_of_error :
    (∀ (op : Store.Operation) (s s' : Store) (g : Fault), op.perform.run s = (.error g, s') →
      s' = s) ∧
    ∀ (e e' : Engine) (g : Fault), e.step = (.error g, e') →
      e.memory.store.Retains e'.memory.store :=
  ⟨fun _ _ _ _ h => Atomic.same h, fun _ _ _ h => retains_of_step_error h⟩

/-- A script that takes more from an array than it holds; how much is read from a variable that was
never written. -/
def emptied : String :=
  "ALLOCATE GLOBAL IntArray a\nALLOCATE GLOBAL Integer n\nAPPEND a 7\nPOP a $n + 2\n"

/-- The read is warned about, so that the store is not the same, but all that it holds is. -/
theorem unchanged_of_error_emptied : ∃ (e e' : Engine) (s : Store) (g g' : Fault) (stamp : Stamp),
    e.step = (.error g, e') ∧ e'.memory.store ≠ e.memory.store ∧
    e.memory.store.Retains e'.memory.store ∧
    (Store.Operation.pop "a" mainOwner 2 stamp).perform.run e.memory.store = (.error g', s) ∧
    s = e.memory.store := by
  obtain ⟨p, start, hp, hready, h⟩ := exists_of_tried emptied
    (fun _ e =>
      let e := (e.runFor 3).2
      !e.step.1.isOk && e.step.2.memory.store != e.memory.store &&
        !((Store.Operation.pop "a" mainOwner 2 (e.memory.stamp 4)).perform.run e.memory.store).1.isOk)
    (by decide +kernel)
  simp only [Bool.and_eq_true, Bool.not_eq_true', bne_iff_ne, ne_eq] at h
  obtain ⟨⟨hstep, hchanged⟩, hop⟩ := h
  generalize (start.runFor 3).2 = e at hstep hchanged hop
  rcases hs : e.step with ⟨g | u, e'⟩ <;> rw [hs] at hstep hchanged
  · rcases ho : (Store.Operation.pop "a" mainOwner 2 (e.memory.stamp 4)).perform.run e.memory.store
      with ⟨g' | u, s⟩ <;> rw [ho] at hop
    · exact ⟨e, e', s, g, g', _, hs, hchanged, unchanged_of_error.2 e e' g hs, ho,
        unchanged_of_error.1 _ _ _ _ ho⟩
    · cases hop
  · cases hstep

end Engine

end CommandScript
