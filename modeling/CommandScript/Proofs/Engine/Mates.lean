import CommandScript.Proofs.Engine.Confined
import CommandScript.Proofs.Engine.Kindred
import CommandScript.Proofs.Engine.Relocation
import CommandScript.Proofs.Relates

/-!
# Engines of relocated programs

The engines of two programs, one of which holds the commands of the other in other places, are mates
if they have come to the same: to the same command, with the same calls, branches and loops in
progress and the same output, and with kindred memories. They may share their surroundings, too; mates
that do not have papers that take what is written, and commands that keep away from files keep them
together. A command that does not steer does the same to mates; one that steers takes them to the same
command again.
-/

namespace CommandScript

/-- What an engine has around it: the desk of its file commands, the file that takes a copy of its
output and what reads pictures. -/
structure Surroundings where
  desk : Files.Desk
  copy : Option Files.Handle
  scan : String → Checked String

namespace Engine

def surroundings (e : Engine) : Surroundings := ⟨e.desk, e.copy, e.scan⟩

/-- Engines of a program and of the one that it is relocated to, the first of them at the command at
`k`, that have come to the same; if their surroundings are `shared`, these are the same, too, and else what
is written at either is taken. -/
structure Mates (shared : Prop) (p q : Program) (place next : Nat → Nat) (k : Nat) (e f : Engine) :
    Prop where
  left : e.program = p
  right : f.program = q
  here : e.next = k
  there : f.next = next k
  memory : e.memory.Kindred f.memory
  calls : f.calls = e.calls.map (Frame.moved place)
  /-- Behind a call the programs go on at the same command. -/
  returns : ∀ frame ∈ e.calls, next (frame.callIndex + 1) = place frame.callIndex + 1
  taken : f.taken = e.taken.map (takenMoved place)
  loops : f.loops = e.loops.map (ActiveLoop.moved place)
  state : e.state = f.state
  output : e.output = f.output
  finished : e.finished = f.finished
  surroundings : shared → e.surroundings = f.surroundings
  takes : ¬ shared → e.papers.Takes ∧ f.papers.Takes

variable {shared : Prop} {p q : Program} {place next : Nat → Nat} {k : Nat} {e f : Engine} {α : Type}

namespace Mates

theorem depth_eq (h : Mates shared p q place next k e f) : f.depth = e.depth := by
  rw [depth, h.calls, List.length_map, depth]

theorem owner_eq (h : Mates shared p q place next k e f) : f.owner = e.owner := by
  unfold owner
  rw [h.calls]
  cases e.calls <;> rfl

theorem view (h : Mates shared p q place next k e f) : f.viewpoint.Agrees e.viewpoint where
  owner := h.owner_eq
  loopValue? := by
    funext name
    simp only [Viewpoint.loopValue?, viewpoint, h.loops, h.depth_eq, List.find?_map, Option.map_map]
    rfl

theorem withStore (h : Mates shared p q place next k e f) {s t : Store} (hst : s.Kindred t) :
    Mates shared p q place next k { e with memory := { e.memory with store := s } }
      { f with memory := { f.memory with store := t } } :=
  { h with memory := ⟨hst, h.memory.clock, h.memory.draw⟩ }

theorem report (h : Mates shared p q place next k e f) (c : Category) (message message' : String) :
    Mates shared p q place next k (e.report c message) (f.report c message') :=
  { h with memory := ⟨h.memory.store, h.memory.clock, h.memory.draw⟩ }

theorem withLoops (h : Mates shared p q place next k e f) (loops : List ActiveLoop) :
    Mates shared p q place next k { e with loops }
      { f with loops := loops.map (ActiveLoop.moved place) } :=
  { h with loops := rfl }

theorem withPapers (h : Mates shared p q place next k e f) {a b : Files.Papers} (hs : shared → a = b)
    (ht : ¬ shared → a.Takes ∧ b.Takes) :
    Mates shared p q place next k { e with desk := a.desk, copy := a.copy }
      { f with desk := b.desk, copy := b.copy } :=
  { h with
    surroundings := fun hshared => by
      obtain rfl := hs hshared
      exact congrArg (fun s : Surroundings => { s with desk := a.desk, copy := a.copy })
        (h.surroundings hshared)
    takes := ht }

theorem papers_eq (h : Mates shared p q place next k e f) (hs : shared) : e.papers = f.papers :=
  congrArg (fun s : Surroundings => (⟨s.desk, s.copy⟩ : Files.Papers)) (h.surroundings hs)

/-- What is done at the papers has the same answer for mates, if they share their surroundings or it
goes smoothly. -/
theorem onPapers (h : Mates shared p q place next k e f) {action : Files.PapersM Unit}
    (hs : shared ∨ Files.Papers.Smooth action) :
    ((onPapers action).run e).1 = ((onPapers action).run f).1 ∧
      Mates shared p q place next k ((onPapers action).run e).2 ((onPapers action).run f).2 := by
  rw [run_onPapers, run_onPapers]
  by_cases hshared : shared
  · rw [h.papers_eq hshared]
    exact ⟨rfl, h.withPapers (fun _ => rfl) (absurd hshared)⟩
  · obtain ⟨he, hf⟩ := h.takes hshared
    obtain ⟨a, ha, htakes⟩ := (hs.resolve_left hshared).run he
    obtain ⟨b, hb, htakes'⟩ := (hs.resolve_left hshared).run hf
    rw [ha, hb]
    exact ⟨rfl, h.withPapers (absurd · hshared) fun _ => ⟨htakes, htakes'⟩⟩

end Mates

/-! ### Parts of commands -/

/-- The operation does the same to mates. -/
abbrev Matched (shared : Prop) (p q : Program) (place next : Nat → Nat) (k : Nat)
    (x y : EngineM α) : Prop :=
  Couples (Mates shared p q place next k) x y

theorem matched_onMemory {action action' : MemoryM α} (h : Couples Memory.Kindred action action') :
    Matched shared p q place next k (onMemory action) (onMemory action') := by
  intro e f hef
  obtain ⟨hanswer, hafter⟩ := h e.memory f.memory hef.memory
  exact ⟨hanswer, { hef with memory := hafter }⟩

theorem matched_seen {action : Viewpoint → MemoryM α}
    (hsame : ∀ v w : Viewpoint, v.Agrees w → action v = action w)
    (h : ∀ v, Viewpoint.Settled (action v)) :
    Matched shared p q place next k (seen action) (seen action) :=
  couples_get_bind fun e f hef => by
    rw [hsame _ _ hef.view]
    exact matched_onMemory (h _)

theorem matched_report (c : Category) (message message' : String) :
    Matched shared p q place next k (modify fun e => e.report c message : EngineM PUnit)
      (modify fun e => e.report c message') :=
  couples_modify fun _ _ h => h.report c message message'

theorem matched_onCells (g : Cells → Cells) : Matched shared p q place next k (onCells g) (onCells g) :=
  couples_modify fun _ _ h => h.withStore (h.memory.store.withCells g)

theorem matched_onStore {action action' : StoreM α} [Atomic action] [Atomic action']
    (h : ∀ s t, s.Kindred t → Checked.Both (fun x y => x.1 = y.1 ∧ x.2.Kindred y.2)
      (outcome action s) (outcome action' t)) :
    Matched shared p q place next k (onStore action) (onStore action') := by
  refine matched_onMemory (couples_atomic fun m n hmn => ?_)
  rw [Memory.outcome_onStore, Memory.outcome_onStore]
  exact (h m.store n.store hmn.store).bind fun x y hxy => ⟨hxy.1, hxy.2, hmn.clock, hmn.draw⟩

theorem matched_number {g : Formula} (h : ∀ r ∈ g.references, r.showsWriter = false) :
    Matched shared p q place next k (number g) (number g) :=
  matched_seen (fun v w hvw => by rw [hvw.look]) fun _ => Viewpoint.settled_formula h

theorem matched_text {a : Argument} (h : ∀ r ∈ a.references, r.showsWriter = false) :
    Matched shared p q place next k (text a) (text a) :=
  matched_seen (fun v w hvw => by rw [hvw.look]) fun _ => Viewpoint.settled_text h

theorem matched_value {a : Argument} (h : ∀ r ∈ a.references, r.showsWriter = false) :
    Matched shared p q place next k (value a) (value a) :=
  matched_seen (fun v w hvw => by rw [hvw.look]) fun _ => Viewpoint.settled_argument h

theorem matched_truth {c : Condition} (h : ∀ r ∈ c.references, r.showsWriter = false) :
    Matched shared p q place next k (truth c) (truth c) :=
  matched_seen (fun v w hvw => by rw [hvw.look]) fun _ => Viewpoint.settled_condition h

theorem matched_indexed (index : Bound) {item : Argument}
    (h : ∀ r ∈ item.references, r.showsWriter = false) :
    Matched shared p q place next k (indexed index item) (indexed index item) :=
  matched_seen (fun v w hvw => by rw [hvw.look, hvw.position]) fun v => v.settled_indexed index h

section Lines

variable {line line' : Nat} (hline : 0 < line) (hline' : 0 < line')

include hline hline'

theorem kindred_stamp {m n : Memory} (h : m.Kindred n) :
    (m.stamp line).Kindred (n.stamp line') :=
  ⟨hline, hline', h.clock⟩

theorem matched_store (target owner : String) (v : Value) :
    Matched shared p q place next k (store target owner v line) (store target owner v line') := by
  refine matched_onMemory (couples_atomic fun m n hmn => ?_)
  have hboth : Checked.Both Memory.Kindred (m.write target owner v line) (n.write target owner v line') := by
    rw [Memory.write_eq, Memory.write_eq]
    exact (hmn.store.write target owner v (kindred_stamp hline hline' hmn)).bind fun s t hst =>
      ⟨hst, hmn.clock, hmn.draw⟩
  exact (Checked.both_map_iff.mp hboth).imp fun x y hxy => ⟨rfl, hxy⟩

/-- A change of the store that looks at no write. -/
theorem matched_change {action : Stamp → StoreM Unit} [∀ stamp, Atomic (action stamp)]
    (h : ∀ {a b : Stamp} {s t : Store}, a.Kindred b → s.Kindred t →
      Store.BothKindred (s.leaves (action a)) (t.leaves (action b))) :
    Matched shared p q place next k (Engine.change line action) (Engine.change line' action) := by
  refine couples_get_bind fun e f hef => matched_onStore fun s t hst => ?_
  have hboth := h (kindred_stamp hline hline' hef.memory) hst
  exact (Checked.both_map_iff.mp hboth).imp fun x y hxy => ⟨rfl, hxy⟩

end Lines

/-! ### Output and options -/

theorem matched_onPapers {action : Files.PapersM Unit} (hs : shared ∨ Files.Papers.Smooth action) :
    Matched shared p q place next k (onPapers action) (onPapers action) :=
  fun _ _ hef => hef.onPapers hs

theorem matched_print (line : String) : Matched shared p q place next k (print line) (print line) :=
  (matched_report _ _ _).bind fun _ =>
    (matched_onPapers (.inr (Files.Papers.smooth_copyLine line))).bind fun _ =>
      couples_modify fun _ _ h => { h with output := congrArg (·.push line) h.output }

theorem matched_applyOption {o : ScriptOption} (ho : shared ∨ o.isConfined = true) :
    Matched shared p q place next k (applyOption o) (applyOption o) := by
  unfold applyOption
  cases o with
  | debug mask =>
    refine Couples.bind (couples_modify fun e f h => ?_) fun _ => matched_report _ _ _
    exact { h with memory := ⟨h.memory.store, h.memory.clock, h.memory.draw⟩ }
  | testPath path =>
    refine Couples.bind (couples_modify fun e f h => ?_) fun _ => matched_report _ _ _
    exact { h with
      surroundings := fun hs => congrArg (fun s : Surroundings =>
        { s with desk := { s.desk with base := s.desk.resolve path } }) (h.surroundings hs)
      takes := fun hnot => (h.takes hnot).imp (fun h => ⟨h.closed, h.takes⟩)
        fun h => ⟨h.closed, h.takes⟩ }
  | outputFile path =>
    have hs : shared := ho.resolve_right nofun
    exact (matched_onPapers (.inl hs)).bind fun _ => matched_report _ _ _

theorem matched_applyOptions {options : List ScriptOption}
    (h : ∀ o ∈ options, shared ∨ o.isConfined = true) :
    Matched shared p q place next k (applyOptions options) (applyOptions options) :=
  paired_applyOptions fun o ho => matched_applyOption (h o ho)

/-! ### Files -/

theorem matched_onDesk (hs : shared) (action : Files.DeskM α) :
    Matched shared p q place next k (onDesk action) (onDesk action) := by
  intro e f hef
  have hrun (e : Engine) : (onDesk action).run e =
    ((action.run e.desk).1, { e with desk := (action.run e.desk).2 }) := rfl
  have hdesk : e.desk = f.desk := congrArg Surroundings.desk (hef.surroundings hs)
  rw [hrun, hrun, hdesk]
  refine ⟨rfl, { hef with surroundings := fun hs => ?_, takes := absurd hs }⟩
  exact congrArg (fun s : Surroundings => { s with desk := (action.run f.desk).2 })
    (hef.surroundings hs)

/-! ### Commands that do not steer -/

theorem Alters.kindred {change : String → Stamp → StoreM Unit} (h : Alters change)
    (owner : String) {a b : Stamp} {s t : Store} (hs : a.Kindred b) (hst : s.Kindred t) :
    Store.BothKindred (s.leaves (change owner a)) (t.leaves (change owner b)) := by
  cases h with
  | extend name v => exact hst.extend name owner v hs
  | append name v => exact hst.append name owner v hs
  | insert name n v => exact hst.insert name owner n v hs
  | modify name n v => exact hst.modify name owner n v hs
  | remove name first last => exact hst.remove name owner first last hs
  | truncate name n => exact hst.truncate name owner n hs
  | pop name n => exact hst.pop name owner n hs
  | clear name => exact hst.clear name owner hs
  | reset name => exact hst.resetFilter name owner

/-- What a command is made of that shows no line of a write does the same to mates; if the command has
to do with files, they share their surroundings. -/
theorem Parts.of_mates {line line' : Nat} (hline : 0 < line) (hline' : 0 < line') {command : Command}
    (hfiles : shared ∨ command.isConfined = true)
    (h : ∀ r ∈ command.references, r.showsWriter = false) :
    Parts (Mates shared p q place next k) line line' command where
  owner hef := hef.owner_eq
  typeOf name owner hef := (hef.memory.store.typeOf_eq name owner).symm
  number _ hg := matched_number fun r hr => h r (Command.mem_references_of_formula hg hr)
  text _ ha := matched_text fun r hr => h r (Command.mem_references_of_argument ha hr)
  value _ ha := matched_value fun r hr => h r (Command.mem_references_of_argument ha hr)
  truth _ hc := matched_truth fun r hr => h r (Command.mem_references_of_condition hc hr)
  indexed index _ _ hitem :=
    matched_indexed index fun r hr => h r (Command.mem_references_of_argument hitem hr)
  positions index _ := matched_seen (fun v w hvw => by rw [hvw.positions])
    fun v => v.settled_positions index
  old name _ owner :=
    matched_onMemory (couples_atomic (x := MemoryM.read name owner) (y := MemoryM.read name owner)
      fun _ _ hmn => hmn.read name owner)
  store := matched_store hline hline'
  change _ hchange owner :=
    have := hchange.atomic owner
    matched_change hline hline' fun hs hst => hchange.kindred owner hs hst
  select name owner filter := matched_onStore fun s t hst => hst.filter name owner filter
  applyFilter name owner hef := matched_onStore fun s t hst =>
    hst.applyFilter name owner (kindred_stamp hline hline' hef.memory)
  modulus n := matched_onStore fun s t hst => by
    rw [Store.outcome_withModulus, Store.outcome_withModulus, hst.cells]
    cases t.cells.withModulus n with
    | error g => exact rfl
    | ok cells => exact ⟨rfl, hst.globals, hst.locals, rfl⟩
  report category message := matched_report category message message
  print := matched_print
  options options hrun := matched_applyOptions fun o ho => hfiles.imp_right fun hconfined => by
    rw [hrun] at hconfined
    exact List.all_eq_true.mp hconfined o ho
  files hnot := by
    have hs : shared := hfiles.resolve_right (by rw [hnot]; nofun)
    exact paired_fileCommand (fun hef => congrArg Surroundings.desk (hef.surroundings hs))
      (fun hef => congrArg Surroundings.scan (hef.surroundings hs)) (matched_onDesk hs)
      matched_onCells
      (fun _ ha => matched_text fun r hr => h r (Command.mem_references_of_argument ha hr))
      fun _ hg => matched_number fun r hr => h r (Command.mem_references_of_formula hg hr)

/-- A command that does not steer does the same to mates, whatever lines it stands on. -/
theorem matched_execute {entry entry' : Entry} (hline : 0 < entry.line) (hline' : 0 < entry'.line)
    (hsame : entry'.command = entry.command) (hplain : entry.command.steers = false)
    (hfiles : shared ∨ entry.command.isConfined = true)
    (h : ∀ r ∈ entry.command.references, r.showsWriter = false) :
    Matched shared p q place next k (execute entry) (execute entry') :=
  (Parts.of_mates hline hline' hfiles h).execute hsame hplain

end Engine

end CommandScript
