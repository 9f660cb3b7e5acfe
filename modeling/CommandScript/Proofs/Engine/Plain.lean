import CommandScript.Engine.Run
import CommandScript.Proofs.Checked
import CommandScript.Proofs.Files.Desk

/-!
# Commands that do not steer

Most commands work on variables and files and then go on with the next command. They see the calls
and loops in progress only through the owner of the locals and the values of the loop variables, and
they leave the calls, chains and loops in progress alone.
-/

namespace CommandScript

/-- The two viewpoints show the same variables. -/
structure Viewpoint.Agrees (v w : Viewpoint) : Prop where
  owner : v.owner = w.owner
  loopValue? : v.loopValue? = w.loopValue?

namespace Viewpoint.Agrees

variable {v w : Viewpoint}

theorem read (h : v.Agrees w) : v.read = w.read := by
  funext name
  simp only [Viewpoint.read, h.owner]

theorem position (h : v.Agrees w) : v.position = w.position := by
  funext b
  cases b with
  | position n => rfl
  | named name => simp only [Viewpoint.position, h.loopValue?, h.read]

theorem positions (h : v.Agrees w) : v.positions = w.positions := by
  funext i
  cases i with
  | single b => simp only [Viewpoint.positions, h.position]
  | range first last => simp only [Viewpoint.positions, h.position]

theorem look (h : v.Agrees w) : v.look = w.look := by
  funext r
  simp only [Viewpoint.look, Viewpoint.lookPlain, Viewpoint.metadata, Viewpoint.filtered,
    h.loopValue?, h.read, h.positions, h.owner]

end Viewpoint.Agrees

namespace Engine

/-- What decides which command comes next. -/
structure Flow where
  program : Program
  next : Nat
  calls : List CommandScript.Frame
  taken : Assoc (Nat × Nat) Bool
  loops : List ActiveLoop
  finished : Bool

def flow (e : Engine) : Flow where
  program := e.program
  next := e.next
  calls := e.calls
  taken := e.taken
  loops := e.loops
  finished := e.finished

/-- All that an engine has beside the place that its program has come to. -/
def data (e : Engine) : Engine :=
  { e with next := 0, calls := [], taken := [], loops := [], skipBreakpoint := false }

/-- The engines have the same data and show a command the same variables. -/
structure SameView (e f : Engine) : Prop where
  data : e.data = f.data
  view : e.viewpoint.Agrees f.viewpoint

namespace SameView

variable {e f : Engine}

theorem memory (h : SameView e f) : e.memory = f.memory :=
  (congrArg Engine.memory h.data :)

theorem desk (h : SameView e f) : e.desk = f.desk :=
  (congrArg Engine.desk h.data :)

theorem owner (h : SameView e f) : e.owner = f.owner := h.view.owner

/-- Changing the data alike while the flow stays keeps the views the same. -/
theorem of_flow {e' f' : Engine} (h : SameView e f) (hd : e'.data = f'.data)
    (he : e'.flow = e.flow) (hf : f'.flow = f.flow) : SameView e' f' := by
  have view {a b : Engine} (h : a.flow = b.flow) : a.viewpoint = b.viewpoint := by
    have hcalls : a.calls = b.calls := congrArg Flow.calls h
    have hloops : a.loops = b.loops := congrArg Flow.loops h
    simp only [viewpoint, Engine.owner, depth, hcalls, hloops]
  refine ⟨hd, ?_⟩
  rw [view he, view hf]
  exact h.view

end SameView

/-- The action gives the same on engines with the same view and leaves the flow alone. -/
structure Plain {α : Type} (x : EngineM α) : Prop where
  same : ∀ e f, SameView e f → (x.run e).1 = (x.run f).1 ∧ (x.run e).2.data = (x.run f).2.data
  flow : ∀ e, (x.run e).2.flow = e.flow

section Plain

variable {α β : Type} {x : EngineM α}

theorem Plain.sameView (h : Plain x) {e f : Engine} (hv : SameView e f) :
    SameView (x.run e).2 (x.run f).2 :=
  hv.of_flow (h.same e f hv).2 (h.flow e) (h.flow f)

theorem Plain.flow_eq (h : Plain x) {e e' : Engine} {a : α} (hx : Gives x e a e') :
    e'.flow = e.flow := by
  have hflow := h.flow e
  rwa [hx] at hflow

theorem plain_pure (a : α) : Plain (pure a) := ⟨fun _ _ h => ⟨rfl, h.data⟩, fun _ => rfl⟩

theorem plain_throw (f : Fault) : Plain (throw f : EngineM α) :=
  ⟨fun _ _ h => ⟨rfl, h.data⟩, fun _ => rfl⟩

theorem plain_lift (x : Checked α) : Plain (liftM x) := by
  cases x with
  | ok a => exact plain_pure a
  | error f => exact plain_throw f

theorem plain_bind {f : α → EngineM β} (hx : Plain x) (hf : ∀ a, Plain (f a)) :
    Plain (x >>= f) := by
  refine ⟨fun e e' h => ?_, fun e => ?_⟩
  · obtain ⟨hr, hd⟩ := hx.same e e' h
    have hv := hx.sameView h
    rw [run_bind, run_bind]
    rcases he : x.run e with ⟨r, u⟩
    rcases he' : x.run e' with ⟨r', u'⟩
    rw [he, he'] at hr hd hv
    obtain rfl : r = r' := hr
    cases r with
    | error err => exact ⟨rfl, hd⟩
    | ok a => exact (hf a).same u u' hv
  · have hflow := hx.flow e
    rw [run_bind]
    rcases he : x.run e with ⟨r, u⟩
    rw [he] at hflow
    cases r with
    | error err => exact hflow
    | ok a => exact ((hf a).flow u).trans hflow

theorem plain_map {f : α → β} (hx : Plain x) : Plain (f <$> x) := by
  rw [map_eq_pure_bind]
  exact plain_bind hx fun _ => plain_pure _

theorem plain_ite {p : Prop} [Decidable p] {x y : EngineM α} (hx : Plain x) (hy : Plain y) :
    Plain (if p then x else y) := by
  split
  · exact hx
  · exact hy

/-- Reading what engines with the same view have in common is plain. -/
theorem plain_get_bind {f : Engine → EngineM α} (h : ∀ e e', SameView e e' → f e = f e')
    (hf : ∀ e, Plain (f e)) : Plain (get >>= f) := by
  have hget (e : Engine) : (get >>= f : EngineM α).run e = (f e).run e := rfl
  refine ⟨fun e e' hv => ?_, fun e => (hf e).flow e⟩
  rw [hget, hget, h e e' hv]
  exact (hf e').same e e' hv

/-- A change that neither reads nor touches the flow is plain. -/
theorem plain_modify {g : Engine → Engine} (hdata : ∀ e, (g e).data = (g e.data).data)
    (hflow : ∀ e, (g e).flow = e.flow) : Plain (modify g : EngineM PUnit) := by
  refine ⟨fun e e' h => ⟨rfl, ?_⟩, hflow⟩
  show (g e).data = (g e').data
  rw [hdata e, hdata e', h.data]

theorem plain_getData_bind {f : Engine → EngineM α} (h : ∀ e, f e = f e.data)
    (hf : ∀ e, Plain (f e)) : Plain (get >>= f) :=
  plain_get_bind (fun e e' hv => by rw [h e, h e', hv.data]) hf

theorem plain_onMemory (action : MemoryM α) : Plain (onMemory action) := by
  have hrun (e : Engine) : (onMemory action).run e =
      ((action.run e.memory).1, { e with memory := (action.run e.memory).2 }) := rfl
  have hdata (e : Engine) (m : Memory) :
      ({ e with memory := m } : Engine).data = { e.data with memory := m } := rfl
  refine ⟨fun e f h => ?_, fun e => rfl⟩
  rw [hrun, hrun, h.memory, hdata, hdata, h.data]
  exact ⟨rfl, rfl⟩

theorem plain_onDesk (action : Files.DeskM α) : Plain (onDesk action) := by
  have hrun (e : Engine) : (onDesk action).run e =
      ((action.run e.desk).1, { e with desk := (action.run e.desk).2 }) := rfl
  have hdata (e : Engine) (d : Files.Desk) :
      ({ e with desk := d } : Engine).data = { e.data with desk := d } := rfl
  refine ⟨fun e f h => ?_, fun e => rfl⟩
  rw [hrun, hrun, h.desk, hdata, hdata, h.data]
  exact ⟨rfl, rfl⟩

theorem run_onPapers (action : Files.PapersM α) (e : Engine) :
    (onPapers action).run e = ((action.run e.papers).1,
      { e with desk := (action.run e.papers).2.desk, copy := (action.run e.papers).2.copy }) :=
  rfl

theorem plain_onPapers (action : Files.PapersM α) : Plain (onPapers action) := by
  have hdata (e : Engine) (p : Files.Papers) : ({ e with desk := p.desk, copy := p.copy } : Engine).data =
      { e.data with desk := p.desk, copy := p.copy } := rfl
  refine ⟨fun e f h => ?_, fun e => rfl⟩
  have hpapers : e.papers = f.papers := (congrArg papers h.data :)
  rw [run_onPapers, run_onPapers, hpapers, hdata, hdata, h.data]
  exact ⟨rfl, rfl⟩

theorem plain_onStore (action : StoreM α) : Plain (onStore action) :=
  plain_onMemory _

theorem plain_seen {action : Viewpoint → MemoryM α}
    (h : ∀ v w : Viewpoint, v.Agrees w → action v = action w) : Plain (seen action) :=
  plain_get_bind (fun e e' hv => by rw [h _ _ hv.view]) fun _ => plain_onMemory _

theorem plain_number (f : Formula) : Plain (number f) :=
  plain_seen fun v w h => by rw [h.look]

theorem plain_text (a : Argument) : Plain (text a) :=
  plain_seen fun v w h => by rw [h.look]

theorem plain_value (a : Argument) : Plain (value a) :=
  plain_seen fun v w h => by rw [h.look]

theorem plain_truth (c : Condition) : Plain (truth c) :=
  plain_seen fun v w h => by rw [h.look]

theorem plain_indexed (index : Bound) (item : Argument) : Plain (indexed index item) :=
  plain_seen fun v w h => by rw [h.look, h.position]

theorem plain_counted (f : Formula) : Plain (counted f) :=
  plain_bind (plain_number f) fun _ => plain_lift _

theorem plain_report (c : Category) (message : String) :
    Plain (modify fun e => e.report c message : EngineM PUnit) :=
  plain_modify (fun _ => rfl) fun _ => rfl

theorem plain_onCells (f : Cells → Cells) : Plain (onCells f) :=
  plain_modify (fun _ => rfl) fun _ => rfl

theorem plain_print (line : String) : Plain (print line) :=
  plain_bind (plain_report _ _) fun _ => plain_bind (plain_onPapers _) fun _ =>
    plain_modify (fun _ => rfl) fun _ => rfl

/-! ### The end of a program, and of a run -/

/-- The engine with its program run to its end and with these papers. -/
def ended (e : Engine) (p : Files.Papers) : Engine :=
  { e with finished := true, state := .stopped, desk := p.desk, copy := p.copy }

/-- The program ends with a word in the log, or with the fault of what waited for a file. -/
theorem run_finish (e : Engine) : finish.run e = match Files.Papers.settle.run e.papers with
    | (.ok (), p) =>
      (.ok (), (e.ended p).report .program s!"script finished at command {e.next}")
    | (.error f, p) => (.error f, e.ended p) := by
  change (onPapers Files.Papers.settle >>= fun _ => modify _ : EngineM Unit).run
    { e with finished := true, state := .stopped } = _
  rw [run_bind, run_onPapers]
  have hpapers : papers { e with finished := true, state := .stopped } = e.papers := rfl
  rw [hpapers]
  rcases Files.Papers.settle.run e.papers with ⟨f | u, p⟩ <;> rfl

/-- A fault of the end is what was refused of what waited for a file. -/
theorem refused_of_finish {e e' : Engine} {f : Fault} (h : finish.run e = (.error f, e')) :
    ∃ p, Files.Papers.settle.run e.papers = (.error f, p) ∧ e' = e.ended p := by
  rw [run_finish] at h
  rcases hs : Files.Papers.settle.run e.papers with ⟨g | u, p⟩ <;> rw [hs] at h
  · cases h
    exact ⟨p, rfl, rfl⟩
  · cases h

theorem state_closeFile (e : Engine) :
    (closeFile.run e).2 = { e with desk := e.desk.closed } := by
  rw [closeFile, run_onPapers, Files.Papers.state_closeFile]
  rfl

/-- A fault stops the engine and closes the open file. -/
theorem stopOn_eq (entry : Entry) (f : Fault) (e : Engine) :
    let g := f.atLine entry.line entry.text
    e.stopOn entry f =
      (g, { e.report .error g.message with state := .stopped, desk := e.desk.closed }) := by
  unfold stopOn
  exact Prod.ext rfl (state_closeFile _)

/-- A reset closes the open file, and may warn of it. -/
theorem exists_closeOrWarn (e : Engine) : ∃ log,
    e.closeOrWarn = { e with memory := { e.memory with log }, desk := e.desk.closed } := by
  have hstate := state_closeFile e
  unfold closeOrWarn
  rcases hrun : closeFile.run e with ⟨f | u, e'⟩ <;> rw [hrun] at hstate
  · dsimp only at hstate ⊢
    rw [hstate]
    exact ⟨_, rfl⟩
  · dsimp only at hstate ⊢
    rw [hstate]
    exact ⟨e.memory.log, rfl⟩

/-- A reset is known but for what it writes to the log. -/
theorem exists_reset (e : Engine) : ∃ log, e.reset =
    { e.rewound with
      memory := { e.memory with store := e.initial, log }
      desk := { e.desk.closed with base := e.base }
      finished := false
      skipBreakpoint := false
      state := if e.state = RunState.paused then .paused else .running } := by
  obtain ⟨log, hclosed⟩ := e.rewound.exists_closeOrWarn
  refine ⟨log.add .program "reset", ?_⟩
  unfold reset
  rw [hclosed]
  rfl

/-- Of an engine that has come to the end of its program, log, desk and copy may have changed. -/
theorem exists_finish (e : Engine) : ∃ answer p log,
    finish.run e = (answer, { e.ended p with memory := { e.memory with log } }) ∧
      p.desk.base = e.desk.base ∧ ∀ f, answer = .error f → f.kind = .io := by
  have htidy := Files.Papers.tidy_settle e.desk.base e.papers rfl
  rw [run_finish]
  rcases hrun : Files.Papers.settle.run e.papers with ⟨f | u, p⟩ <;> rw [hrun] at htidy
  · refine ⟨_, p, e.memory.log, rfl, htidy.1, ?_⟩
    rintro _ ⟨⟩
    exact htidy.2
  · exact ⟨_, p, _, rfl, htidy.1, nofun⟩

theorem flow_finish (e : Engine) : (finish.run e).2.flow = { e.flow with finished := true } := by
  obtain ⟨answer, p, log, heq, -⟩ := e.exists_finish
  rw [heq]
  rfl

/-! ### Options -/

theorem plain_applyOption (o : ScriptOption) : Plain (applyOption o) := by
  unfold applyOption
  cases o with
  | debug mask => exact plain_bind (plain_modify (fun _ => rfl) fun _ => rfl) fun _ => plain_report _ _
  | testPath directory =>
    exact plain_bind (plain_modify (fun _ => rfl) fun _ => rfl) fun _ => plain_report _ _
  | outputFile path => exact plain_bind (plain_onPapers _) fun _ => plain_report _ _

theorem plain_applyOptions (options : List ScriptOption) : Plain (applyOptions options) := by
  induction options with
  | nil => exact plain_pure _
  | cons o options ih => exact plain_bind (plain_applyOption o) fun _ => ih

/-! ### Commands -/

theorem plain_change (line : Nat) (f : Stamp → StoreM Unit) : Plain (change line f) :=
  plain_getData_bind (fun _ => rfl) fun _ => plain_onStore _

theorem plain_assignedNumber (target owner : String) (op : AssignOp) (f : Formula) :
    Plain (assignedNumber target owner op f) :=
  plain_bind (plain_number f) fun _ => plain_ite (plain_pure _)
    (plain_bind (plain_onMemory _) fun _ => plain_bind (plain_lift _) fun _ => plain_lift _)

theorem plain_assignedTruth (target owner : String) (op : AssignOp) (c : Condition) :
    Plain (assignedTruth target owner op c) := by
  refine plain_bind (plain_truth c) fun _ => ?_
  dsimp only
  split
  · exact plain_pure _
  all_goals first
    | exact plain_throw _
    | exact plain_bind (plain_bind (plain_onMemory _) fun _ => plain_lift _) fun _ => plain_pure _

theorem plain_assignedText (target owner : String) (op : AssignOp) (a : Argument) :
    Plain (assignedText target owner op a) :=
  plain_bind (plain_text a) fun _ =>
    plain_ite (plain_bind (plain_onMemory _) fun _ => plain_pure _) (plain_pure _)

theorem plain_store (target owner : String) (v : Value) (line : Nat) :
    Plain (store target owner v line) :=
  plain_onMemory _

theorem plain_assign (line : Nat) (target : String) (op : AssignOp) (right : RightSide) :
    Plain (assign line target op right) := by
  refine plain_get_bind (fun e e' h => ?_) fun e => ?_
  · dsimp only
    rw [h.owner, h.memory]
  · refine plain_bind (plain_lift _) fun t => ?_
    cases right with
    | number f =>
      refine plain_bind (plain_assignedNumber ..) fun _ => plain_ite ?_ (plain_store ..)
      exact plain_bind (plain_lift _) fun _ => plain_store ..
    | truth c => exact plain_bind (plain_assignedTruth ..) fun _ => plain_store ..
    | text a => exact plain_bind (plain_assignedText ..) fun _ => plain_store ..
    | entries a =>
      refine plain_bind (plain_value a) fun v => plain_ite ?_ (plain_ite ?_ ?_)
      · exact plain_bind (plain_lift _) fun _ => plain_store ..
      · exact plain_change ..
      · exact plain_change ..

theorem plain_filterArray (line : Nat) (array : String) (spec : FilterSpec) :
    Plain (filterArray line array spec) := by
  refine plain_get_bind (fun e e' h => by rw [h.owner]) fun e => ?_
  have select (f : Filter) : Plain (do
      let n ← onStore (StoreM.filter array e.owner f)
      modify fun e => e.report .vars s!"FILTER {array}: {n} selected" : EngineM Unit) :=
    plain_bind (plain_onStore _) fun n => plain_report _ _
  cases spec with
  | apply =>
    exact plain_getData_bind (fun _ => rfl) fun _ =>
      plain_bind (plain_onStore _) fun _ => plain_report _ _
  | text inverted anchor a => exact plain_bind (plain_text a) fun t => select _
  | number r f => exact plain_bind (plain_number f) fun n => select _

theorem plain_fileCommand (command : Command) : Plain (fileCommand command) := by
  have onPath {α β : Type} (path : Argument) {action : String → Files.DeskM α}
      {f : α → EngineM β} (hf : ∀ a, Plain (f a)) :
      Plain (do
        let path ← text path
        let a ← onDesk (action path)
        f a : EngineM β) :=
    plain_bind (plain_text path) fun _ => plain_bind (plain_onDesk _) hf
  unfold fileCommand
  cases command <;> dsimp only
  case fileOpen path mode => exact plain_bind (plain_text path) fun _ => plain_onDesk _
  case fileCreate path => exact plain_bind (plain_text path) fun _ => plain_onDesk _
  case fileClose => exact plain_onDesk _
  case fileRead n =>
    have read (n : Option Nat) : Plain (do
        let lines ← onDesk (Files.Desk.readLines n)
        onCells fun cells => { cells with status := !lines.isEmpty, response := lines } :
          EngineM Unit) :=
      plain_bind (plain_onDesk _) fun _ => plain_onCells _
    cases n with
    | some f => exact plain_bind (plain_map (plain_counted f)) fun _ => read _
    | none => exact plain_bind (plain_pure _) fun _ => read _
  case fileWrite a => exact plain_bind (plain_text a) fun _ => plain_onDesk _
  case fileExists path check =>
    exact plain_bind (plain_text path) fun _ =>
      plain_getData_bind (fun _ => rfl) fun _ => plain_onCells _
  case fileSize path => exact onPath path fun n => plain_onCells _
  case fileLines path => exact onPath path fun n => plain_onCells _
  case fileDelete path => exact plain_bind (plain_text path) fun _ => plain_onDesk _
  case changeDirectory path => exact plain_bind (plain_text path) fun _ => plain_onDesk _
  case makeDirectory path => exact plain_bind (plain_text path) fun _ => plain_onDesk _
  case removeDirectory path => exact plain_bind (plain_text path) fun _ => plain_onDesk _
  case directory path wanted => exact onPath path fun n => plain_onCells _
  case scan path =>
    exact plain_bind (plain_text path) fun _ => plain_getData_bind (fun _ => rfl) fun _ =>
      plain_bind (plain_lift _) fun _ => plain_onCells _
  all_goals exact plain_throw _

end Plain

/-- The action is plain, and the next command follows. -/
structure GoesOn (x : EngineM Move) : Prop where
  plain : Plain x
  move : ∀ {e m e'}, Gives x e m e' → m = .next

theorem goesOn_bind {α : Type} {x : EngineM α} {f : α → EngineM Move} (hx : Plain x)
    (hf : ∀ a, GoesOn (f a)) : GoesOn (x >>= f) where
  plain := plain_bind hx fun a => (hf a).plain
  move h := by
    obtain ⟨a, u, -, h⟩ := gives_bind.mp h
    exact (hf a).move h

theorem goesOn_pure : GoesOn (pure .next) where
  plain := plain_pure _
  move h := (gives_pure.mp h).1.symm

theorem goesOn_andNext {action : EngineM Unit} (h : Plain action) : GoesOn (andNext action) :=
  goesOn_bind h fun _ => goesOn_pure

theorem goesOn_changeArray (line : Nat) (f : String → Stamp → StoreM Unit) :
    GoesOn (changeArray line f) :=
  goesOn_andNext (plain_get_bind (fun e e' h => by rw [h.owner]) fun _ => plain_change _ _)

end Engine

/-- The command decides itself which one comes next. -/
def Command.steers : Command → Bool
  | if_ _ | elseIf _ | else_ | endIf | for_ _ | next _ | skip _ | skipIf _ _ | break_ _
  | breakIf _ _ | endFor _ | sub _ _ | endSub | gosub _ _ | return_ _ | endMain | exit => true
  | _ => false

namespace Engine

theorem goesOn_execute {entry : Entry} (h : entry.command.steers = false) :
    GoesOn (execute entry) := by
  unfold execute
  cases hc : entry.command <;> rw [hc] at h <;> cases h
  all_goals dsimp only
  case allocate => exact goesOn_pure
  case set target op right => exact goesOn_andNext (plain_assign ..)
  case setRandom f =>
    exact goesOn_andNext (plain_bind (plain_number f) fun _ => plain_onStore _)
  case print a => exact goesOn_andNext (plain_bind (plain_text a) fun _ => plain_print _)
  case run options => exact goesOn_andNext (plain_applyOptions options)
  case insert array index item =>
    exact goesOn_bind (plain_indexed index item) fun _ => goesOn_changeArray _ _
  case append array item => exact goesOn_bind (plain_value item) fun _ => goesOn_changeArray _ _
  case modify array index item =>
    exact goesOn_bind (plain_indexed index item) fun _ => goesOn_changeArray _ _
  case remove array index =>
    exact goesOn_bind (plain_seen fun v w h => by rw [h.positions]) fun _ => goesOn_changeArray _ _
  case truncate array n => exact goesOn_bind (plain_counted n) fun _ => goesOn_changeArray _ _
  case pop array n => exact goesOn_bind (plain_counted n) fun _ => goesOn_changeArray _ _
  case clear name => exact goesOn_changeArray _ _
  case filter array spec => exact goesOn_andNext (plain_filterArray _ array spec)
  case reset array => exact goesOn_changeArray _ _
  all_goals exact goesOn_andNext (plain_fileCommand _)

end Engine

end CommandScript
