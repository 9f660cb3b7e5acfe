import CommandScript.Proofs.Engine.Likeness

/-!
# Commands on related engines

A command that does not steer does the same to related engines if what it is made of does so
(`Parts.execute`). A relation that outlasts what commands do to memories alike has these parts for the
commands that keep away from files (`Parts.of_portable`), and the commands that steer do the same
under it as well (`paired_execute_confined`).
-/

namespace CommandScript.Engine

/-! ### Commands and their parts -/

/-- The changes of the store that commands make to a variable which their subroutine can see. -/
inductive Alters : (String → Stamp → StoreM Unit) → Prop where
  | extend (name : String) (v : Value) : Alters fun owner => StoreM.extend name owner v
  | append (name : String) (v : Value) : Alters fun owner => StoreM.append name owner v
  | insert (name : String) (n : Nat) (v : Value) : Alters fun owner => StoreM.insert name owner n v
  | modify (name : String) (n : Nat) (v : Value) : Alters fun owner => StoreM.modify name owner n v
  | remove (name : String) (first last : Nat) :
      Alters fun owner => StoreM.remove name owner first last
  | truncate (name : String) (n : Nat) : Alters fun owner => StoreM.truncate name owner n
  | pop (name : String) (n : Nat) : Alters fun owner => StoreM.pop name owner n
  | clear (name : String) : Alters (StoreM.clear name)
  | reset (name : String) : Alters fun owner _ => StoreM.resetFilter name owner

variable {change : String → Stamp → StoreM Unit}

theorem Alters.atomic (h : Alters change) (owner : String) (stamp : Stamp) :
    Atomic (change owner stamp) := by
  cases h <;> infer_instance

theorem Alters.timely {base : Store} (h : Alters change) (owner : String) :
    Timely base fun stamp s => s.leaves (change owner stamp) := by
  cases h with
  | extend name v =>
    exact ⟨fun stamp s => s.timeless_extend name owner stamp v,
      fun stamp s hs => ⟨_, hs.keeps_extend name owner stamp v⟩⟩
  | append name v =>
    exact ⟨fun stamp s => s.timeless_append name owner stamp v,
      fun stamp s hs => ⟨_, hs.keeps_append name owner stamp v⟩⟩
  | insert name n v =>
    exact ⟨fun stamp s => s.timeless_insert name owner stamp n v,
      fun stamp s hs => ⟨_, hs.keeps_insert name owner stamp n v⟩⟩
  | modify name n v =>
    exact ⟨fun stamp s => s.timeless_modify name owner stamp n v,
      fun stamp s hs => ⟨_, hs.keeps_modify name owner stamp n v⟩⟩
  | remove name first last =>
    exact ⟨fun stamp s => s.timeless_remove name owner stamp first last,
      fun stamp s hs => ⟨_, hs.keeps_remove name owner stamp first last⟩⟩
  | truncate name n =>
    exact ⟨fun stamp s => s.timeless_truncate name owner stamp n,
      fun stamp s hs => ⟨_, hs.keeps_truncate name owner stamp n⟩⟩
  | pop name n =>
    exact ⟨fun stamp s => s.timeless_pop name owner stamp n,
      fun stamp s hs => ⟨_, hs.keeps_pop name owner stamp n⟩⟩
  | clear name =>
    exact ⟨fun stamp s => s.timeless_clear name owner stamp,
      fun stamp s hs => ⟨True, hs.keeps_clear name owner stamp⟩⟩
  | reset name =>
    exact ⟨fun _ s => s.timeless_resetFilter name owner,
      fun _ s hs => ⟨_, hs.keeps_resetFilter name owner⟩⟩

/-- What a command is made of does the same to related engines. The command stands on `line` of the
one script and on `line'` of the other. -/
structure Parts (R : Engine → Engine → Prop) (line line' : Nat) (command : Command) : Prop where
  owner {e f : Engine} : R e f → f.owner = e.owner
  typeOf {e f : Engine} (name owner : String) : R e f →
    f.memory.store.typeOf name owner = e.memory.store.typeOf name owner
  number : ∀ g ∈ command.formulas, Paired R (number g)
  text : ∀ a ∈ command.arguments, Paired R (text a)
  value : ∀ a ∈ command.arguments, Paired R (value a)
  truth : ∀ c ∈ command.conditions, Paired R (truth c)
  indexed : ∀ index ∈ command.bounds, ∀ item ∈ command.arguments, Paired R (indexed index item)
  positions : ∀ index : Index, (∀ b ∈ index.bounds, b ∈ command.bounds) →
    Paired R (seen fun v => v.positions index)
  /-- The old value of the target of an assignment. -/
  old : ∀ name, command.target? = some name → ∀ owner,
    Paired R (onMemory (MemoryM.read name owner))
  store : ∀ name owner v, Couples R (store name owner v line) (store name owner v line')
  change : ∀ change, Alters change → ∀ owner,
    Couples R (Engine.change line (change owner)) (Engine.change line' (change owner))
  select : ∀ name owner filter, Paired R (onStore (StoreM.filter name owner filter))
  applyFilter {e f : Engine} (name owner : String) : R e f →
    Couples R (onStore (StoreM.applyFilter name owner (e.memory.stamp line)))
      (onStore (StoreM.applyFilter name owner (f.memory.stamp line')))
  modulus : ∀ n, Paired R (onStore (StoreM.withModulus n))
  report : ∀ category message,
    Paired R (modify fun e => e.report category message : EngineM PUnit)
  print : ∀ text, Paired R (print text)
  options : ∀ options, command = .run options → Paired R (applyOptions options)
  files : command.isConfined = false → Paired R (fileCommand command)

section Relation

variable {R : Engine → Engine → Prop}

theorem couples_andNext {x y : EngineM Unit} (h : Couples R x y) :
    Couples R (andNext x) (andNext y) :=
  h.bind fun _ => couples_pure

/-- A file command does the same to engines with the same files. -/
theorem paired_fileCommand {command : Command} (hdesk : ∀ {e f}, R e f → e.desk = f.desk)
    (hscan : ∀ {e f}, R e f → e.scan = f.scan)
    (hactions : ∀ {α : Type} (action : Files.DeskM α), Paired R (onDesk action))
    (hcells : ∀ g, Paired R (onCells g)) (htext : ∀ a ∈ command.arguments, Paired R (text a))
    (hnumber : ∀ g ∈ command.formulas, Paired R (number g)) : Paired R (fileCommand command) := by
  have path {α : Type} {a : Argument} (ha : a ∈ command.arguments) {x : String → EngineM α}
      (hx : ∀ s, Paired R (x s)) : Paired R (text a >>= x) := (htext a ha).bind hx
  unfold fileCommand
  cases command <;> dsimp only
  case fileClose => exact hactions _
  case fileRead n =>
    have read (n : Option Nat) : Paired R (do
        let lines ← onDesk (Files.Desk.readLines n)
        onCells fun cells => { cells with status := !lines.isEmpty, response := lines } :
          EngineM Unit) :=
      (hactions _).bind fun _ => hcells _
    cases n with
    | some g =>
      have hcounted : Paired R (counted g) :=
        (hnumber g List.mem_cons_self).bind fun _ => couples_lift
      exact (Couples.map hcounted).bind fun _ => read _
    | none => exact couples_pure.bind fun _ => read _
  case fileExists a check =>
    refine path List.mem_cons_self fun _ => couples_get_bind fun e f hef => ?_
    rw [hdesk hef]
    exact hcells _
  case scan a =>
    refine path List.mem_cons_self fun _ => couples_get_bind fun e f hef => ?_
    rw [hdesk hef, hscan hef]
    exact couples_lift.bind fun _ => hcells _
  case fileSize a | fileLines a | directory a wanted =>
    exact path List.mem_cons_self fun _ => (hactions _).bind fun _ => hcells _
  case fileOpen a mode | fileCreate a | fileWrite a | fileDelete a | changeDirectory a
      | makeDirectory a | removeDirectory a =>
    exact path List.mem_cons_self fun _ => hactions _
  all_goals exact couples_throw

namespace Parts

variable {line line' : Nat}

section

variable {command : Command} (h : Parts R line line' command)

include h

theorem counted {g : Formula} (hg : g ∈ command.formulas) : Paired R (counted g) :=
  (h.number g hg).bind fun _ => couples_lift

theorem changeArray {change : String → Stamp → StoreM Unit} (hchange : Alters change) :
    Couples R (changeArray line change) (changeArray line' change) := by
  refine couples_andNext (couples_get_bind fun e f hef => ?_)
  rw [h.owner hef]
  exact h.change _ hchange _

end

section Assignment

variable {target : String} {op : AssignOp} (owner : String)

theorem assignedNumber {g : Formula} (h : Parts R line line' (.set target op (.number g))) :
    Paired R (assignedNumber target owner op g) :=
  (h.number g List.mem_cons_self).bind fun _ => couples_ite (fun _ => couples_pure) fun _ =>
    (h.old target rfl owner).bind fun _ => couples_lift.bind fun _ => couples_lift

theorem assignedTruth {c : Condition} (h : Parts R line line' (.set target op (.truth c))) :
    Paired R (assignedTruth target owner op c) := by
  refine (h.truth c List.mem_cons_self).bind fun _ => ?_
  dsimp only
  split
  · exact couples_pure
  all_goals first
    | exact couples_throw
    | exact ((h.old target rfl owner).bind fun _ => couples_lift).bind fun _ => couples_pure

theorem assignedText {a : Argument} (h : Parts R line line' (.set target op (.text a))) :
    Paired R (assignedText target owner op a) :=
  (h.text a List.mem_cons_self).bind fun _ => couples_ite
    (fun _ => (h.old target rfl owner).bind fun _ => couples_pure) fun _ => couples_pure

theorem assign {right : RightSide} (h : Parts R line line' (.set target op right)) :
    Couples R (assign line target op right) (assign line' target op right) := by
  refine couples_get_bind fun e f hef => ?_
  dsimp only
  rw [h.owner hef, h.typeOf target e.owner hef]
  refine couples_lift.bind fun t => ?_
  cases right with
  | number g =>
    refine (h.assignedNumber _).bind fun _ => couples_ite (fun _ => ?_) fun _ => h.store _ _ _
    exact couples_lift.bind fun _ => h.store _ _ _
  | truth c => exact (h.assignedTruth _).bind fun _ => h.store _ _ _
  | text a => exact (h.assignedText _).bind fun _ => h.store _ _ _
  | entries a =>
    refine (h.value a List.mem_cons_self).bind fun v => ?_
    exact couples_ite (fun _ => couples_lift.bind fun _ => h.store _ _ _) fun _ =>
      couples_ite (fun _ => h.change _ (.extend target v) _) fun _ => h.change _ (.append target v) _

end Assignment

theorem filterArray {array : String} {spec : FilterSpec}
    (h : Parts R line line' (.filter array spec)) :
    Couples R (filterArray line array spec) (filterArray line' array spec) := by
  refine couples_get_bind fun e f hef => ?_
  dsimp only
  rw [h.owner hef]
  have select (filter : Filter) : Paired R (do
      let n ← onStore (StoreM.filter array e.owner filter)
      modify fun e => e.report .vars s!"FILTER {array}: {n} selected" : EngineM Unit) :=
    (h.select array e.owner filter).bind fun _ => h.report _ _
  cases spec with
  | apply =>
    exact couples_get_bind fun e' f' hef' =>
      (h.applyFilter array e.owner hef').bind fun _ => h.report _ _
  | text inverted anchor a => exact (h.text a List.mem_cons_self).bind fun _ => select _
  | number r g => exact (h.number g List.mem_cons_self).bind fun _ => select _

/-- A command that does not steer does the same to related engines if its parts do. -/
theorem execute {entry entry' : Entry} (h : Parts R entry.line entry'.line entry.command)
    (hsame : entry'.command = entry.command) (hplain : entry.command.steers = false) :
    Couples R (execute entry) (execute entry') := by
  unfold Engine.execute
  rw [hsame]
  generalize entry.command = command at *
  cases command <;> cases hplain <;> dsimp only
  case allocate => exact couples_pure
  case set target op right => exact couples_andNext h.assign
  case setRandom g =>
    exact couples_andNext ((h.number g List.mem_cons_self).bind fun n => h.modulus n)
  case print a => exact couples_andNext ((h.text a List.mem_cons_self).bind fun _ => h.print _)
  case run options => exact couples_andNext (h.options options rfl)
  case insert array index item =>
    exact (h.indexed index List.mem_cons_self item List.mem_cons_self).bind fun ⟨n, v⟩ =>
      h.changeArray (.insert array n v)
  case append array item =>
    exact (h.value item List.mem_cons_self).bind fun v => h.changeArray (.append array v)
  case modify array index item =>
    exact (h.indexed index List.mem_cons_self item List.mem_cons_self).bind fun ⟨n, v⟩ =>
      h.changeArray (.modify array n v)
  case remove array index =>
    refine (h.positions index fun _ => id).bind fun positions => ?_
    obtain ⟨first, last⟩ := positions
    exact h.changeArray (.remove array first last)
  case truncate array g =>
    exact (h.counted List.mem_cons_self).bind fun n => h.changeArray (.truncate array n)
  case pop array g =>
    exact (h.counted List.mem_cons_self).bind fun n => h.changeArray (.pop array n)
  case clear name => exact h.changeArray (.clear name)
  case filter array spec => exact couples_andNext h.filterArray
  case reset array => exact h.changeArray (.reset array)
  all_goals exact couples_andNext (h.files rfl)

end Parts

end Relation

variable {same : Prop} {base : Store} {p : Program} {R : Engine → Engine → Prop} {α : Type}
  [like : Likeness same base p R]

include like

theorem paired_select (name owner : String) (filter : Filter) :
    Paired R (onStore (StoreM.filter name owner filter)) := by
  refine couples_onStore fun s t hst hs => ?_
  have hline : (Stamp.mk 0 .epoch).line = (Stamp.mk 0 .epoch).line := rfl
  have hboth := hst.both_change (f := fun _ s => s.filter name owner filter)
    (fun _ u => u.timeless_filter name owner filter) hline fun _ => rfl
  exact hboth.and_left (hs.keeps_filter name owner filter)

theorem couples_applyFilter {e f : Engine} (hef : R e f) (line : Nat) (name owner : String) :
    Couples R (onStore (StoreM.applyFilter name owner (e.memory.stamp line)))
      (onStore (StoreM.applyFilter name owner (f.memory.stamp line))) := by
  refine couples_onStore fun s t hst hs => ?_
  obtain ⟨hline, hsame⟩ := stamp_of_alike (like.memory hef) line
  have hboth := hst.both_change (f := fun stamp s => s.applyFilter name owner stamp)
    (fun stamp u => u.timeless_applyFilter name owner stamp) hline hsame
  exact hboth.and_left (hs.keeps_applyFilter name owner _)

theorem paired_modulus (n : Int64) : Paired R (onStore (StoreM.withModulus n)) := by
  refine couples_onStore fun s t hst hs => ?_
  rw [Store.outcome_withModulus, Store.outcome_withModulus]
  have hcells : s.cells = t.cells := (congrArg Store.cells hst.timeless :)
  rw [hcells]
  cases t.cells.withModulus n with
  | error g => exact rfl
  | ok cells => exact ⟨⟨rfl, hst.withCells fun _ => cells⟩, hs.withCells cells⟩

/-- What a command is made of that may be run in memories alike does the same in related engines, if
its options and its files do. -/
theorem Parts.of_portable {command : Command} (h : command.Portable same base) (line : Nat)
    (hoptions : ∀ options, command = .run options → Paired R (applyOptions options))
    (hfiles : command.isConfined = false → Paired R (fileCommand command)) :
    Parts R line line command where
  owner hef := (Likeness.owner_eq hef).symm
  typeOf name owner hef := ((like.memory hef).store.typeOf_eq name owner).symm
  number _ hg := paired_number (h.formula hg)
  text _ ha := paired_text (h.argument ha)
  value _ ha := paired_value (h.argument ha)
  truth _ hc := paired_truth (h.condition hc).1 (h.condition hc).2
  indexed _ hindex _ hitem := paired_seen fun v _ _ =>
    v.couples_indexed (fun name hname => h.bounds name (hname ▸ hindex)) (h.argument hitem)
  positions _ hindex := paired_seen fun v _ _ =>
    v.couples_positions fun name hname => h.bounds name (hindex _ hname)
  old name hname owner := paired_old (h.target name hname) owner
  store name owner v := paired_store name owner v line
  change _ hchange owner :=
    have := hchange.atomic owner
    paired_change line (hchange.timely owner)
  select := paired_select
  applyFilter name owner hef := couples_applyFilter hef line name owner
  modulus := paired_modulus
  report := paired_report
  print := like.print
  options := hoptions
  files := hfiles

/-! ### Chains -/

theorem paired_isTaken (ifIndex : Nat) : Paired R (isTaken ifIndex) := by
  refine couples_get_bind fun e f hef => ?_
  rw [Likeness.taken_eq hef, Likeness.depth_eq hef]
  split
  · exact couples_pure
  · exact couples_throw

theorem paired_executeIf (index : Nat) {c : Condition}
    (h : ∀ r ∈ c.references, same ∨ r.showsClock = false)
    (htext : same ∨ c.isNoText base = true) : Paired R (executeIf index c) := by
  refine (paired_truth h htext).bind fun holds => (paired_setTaken index holds).bind fun _ => ?_
  refine couples_ite (fun _ => couples_pure) fun _ => couples_get_bind fun e f hef => ?_
  rw [like.program hef, Likeness.program_eq hef]
  exact couples_lift.bind fun _ => couples_lift.bind fun _ => couples_pure

theorem paired_executeBranch (index : Nat) {c : Option Condition}
    (h : ∀ condition, c = some condition → Paired R (truth condition)) :
    Paired R (executeBranch index c) := by
  have rest (ifIndex following : Nat) (holds : Bool) : Paired R (do
      if !holds then return .jump following
      setTaken ifIndex true
      return .next : EngineM Move) :=
    couples_ite (fun _ => couples_pure) fun _ =>
      (paired_setTaken _ _).bind fun _ => couples_pure
  refine couples_get_bind fun e f hef => ?_
  rw [like.program hef, Likeness.program_eq hef]
  refine couples_lift.bind fun chain => couples_lift.bind fun ending => ?_
  refine couples_lift.bind fun following => (paired_isTaken _).bind fun _ => ?_
  refine couples_ite (fun _ => couples_pure) fun _ => ?_
  cases c with
  | none => exact couples_pure.bind fun _ => rest _ _ _
  | some c => exact (h c rfl).bind fun _ => rest _ _ _

theorem paired_executeEndIf (index : Nat) : Paired R (executeEndIf index) := by
  refine couples_get_bind fun e f hef => ?_
  have hchain : e.program.chains.chainOf index = f.program.chains.chainOf index := by
    rw [like.program hef, Likeness.program_eq hef]
  rw [hchain, Likeness.taken_eq hef, Likeness.depth_eq hef]
  refine couples_lift.bind fun chain => Couples.bind ?_ fun _ => couples_pure
  exact couples_set (Likeness.withTaken hef _)

/-! ### Loops -/

section Loops

variable (hloops : ∀ id loop, p.loops.loop id = .ok loop →
  ∀ r ∈ loop.references, same ∨ r.showsClock = false)

theorem paired_findRun (id : LoopId) : Paired R (findRun id) := by
  refine couples_get_bind fun e f hef => ?_
  dsimp only
  rw [Likeness.loops_eq hef, Likeness.depth_eq hef]
  split
  · exact couples_pure
  · exact couples_throw

include hloops

/-- The formulas of a loop of the program. -/
theorem paired_loopNumbers {id : LoopId} {loop : Loop} (h : p.loops.loop id = .ok loop) :
    Paired R (number loop.start) ∧ Paired R (number loop.stop) ∧ Paired R (number loop.step) := by
  have hrefs := hloops id loop h
  refine ⟨paired_number fun r hr => hrefs r ?_, paired_number fun r hr => hrefs r ?_,
    paired_number fun r hr => hrefs r ?_⟩
  · exact List.mem_append_left _ (List.mem_append_left _ hr)
  · exact List.mem_append_left _ (List.mem_append_right _ hr)
  · exact List.mem_append_right _ hr

theorem paired_beginLoop (id : LoopId) : Paired R (beginLoop id) := by
  refine couples_get_bind fun e f hef => ?_
  dsimp only
  rw [Likeness.depth_eq hef, like.program hef, Likeness.program_eq hef]
  refine couples_lift_bind fun loop hloop => ?_
  obtain ⟨hstart, hstop, -⟩ := paired_loopNumbers (R := R) hloops hloop
  refine (paired_withLoops fun e f h => ?_).bind fun _ => hstart.bind fun start => ?_
  · rw [Likeness.loops_eq h]
  refine (paired_withLoops fun e f h => ?_).bind fun _ => hstop.bind fun stop => ?_
  · rw [Likeness.loops_eq h]
  refine couples_ite (fun _ => couples_pure) fun _ => ?_
  refine (paired_withLoops fun e f h => ?_).bind fun _ => couples_lift.bind fun _ => couples_pure
  rw [Likeness.loops_eq h]

theorem paired_advanceLoop (id : LoopId) : Paired R (advanceLoop id) := by
  refine (paired_findRun id).bind fun found => ?_
  obtain ⟨after, run, before⟩ := found
  refine couples_get_bind fun e f hef => ?_
  rw [like.program hef, Likeness.program_eq hef]
  refine couples_lift_bind fun loop hloop => ?_
  obtain ⟨-, hstop, hstep⟩ := paired_loopNumbers (R := R) hloops hloop
  refine hstep.bind fun step => ?_
  refine couples_ite (fun _ => (couples_throw (α := Unit)).bind fun _ => ?_) fun _ => ?_
  all_goals
    split
    · exact couples_throw
    · refine (paired_withLoops fun _ _ _ => rfl).bind fun _ => hstop.bind fun stop => ?_
      refine couples_ite (fun _ => couples_pure) fun _ => ?_
      exact (paired_withLoops fun _ _ _ => rfl).bind fun _ => couples_lift.bind fun _ => couples_pure

omit hloops

theorem paired_leaveLoop (id : LoopId) : Paired R (leaveLoop id) := by
  refine (paired_findRun id).bind fun _ => (paired_withLoops fun _ _ _ => rfl).bind fun _ => ?_
  refine couples_get_bind fun e f hef => ?_
  rw [like.program hef, Likeness.program_eq hef]
  exact couples_lift.bind fun loop => couples_lift.bind fun _ => couples_pure

end Loops

/-! ### Subroutines -/

theorem paired_call (index : Nat) (name : String) (target : Nat) :
    Paired R (call index name target) := by
  refine Couples.bind (couples_modify fun e f h => ?_) fun _ =>
    Couples.bind (couples_modify fun e f h => ?_) fun _ => couples_pure
  · rw [Likeness.calls_eq h]
    exact Likeness.withCalls h _
  · rw [Likeness.depth_eq h]
    exact like.report _ _ h

theorem paired_returnWith (v : Option String) : Paired R (returnWith v) := by
  refine couples_get_bind fun e f hef => ?_
  rw [Likeness.calls_eq hef]
  split
  · exact couples_throw
  · rename_i frame calls _
    have rest : Paired R (do
        modify fun e =>
          e.report .program s!"return from {frame.subroutine} to command {frame.callIndex + 1}"
        return .jump (frame.callIndex + 1) : EngineM Move) :=
      (paired_report _ _).bind fun _ => couples_pure
    rw [Likeness.loops_eq hef, Likeness.taken_eq hef, Likeness.depth_eq hef]
    refine Couples.bind (couples_set (Likeness.withFlow _ _ _ hef)) fun _ => ?_
    cases v with
    | none => exact rest
    | some v => exact (paired_onCells _).bind fun _ => rest

/-! ### All commands -/

section Execute

variable {entry : Entry} (h : entry.command.Portable same base)

include h

theorem paired_execute_plain (hplain : entry.command.steers = false)
    (hoptions : ∀ options, entry.command = .run options → Paired R (applyOptions options))
    (hfiles : entry.command.isConfined = false → Paired R (fileCommand entry.command)) :
    Paired R (execute entry) :=
  (Parts.of_portable h entry.line hoptions hfiles).execute rfl hplain

theorem paired_execute_steering (hsteers : entry.command.steers = true)
    (hloops : ∀ id loop, p.loops.loop id = .ok loop →
      ∀ r ∈ loop.references, same ∨ r.showsClock = false) :
    Paired R (execute entry) := by
  unfold execute
  generalize entry.command = command at *
  cases command <;> cases hsteers <;> dsimp only
  case if_ c =>
    obtain ⟨href, htext⟩ := h.condition List.mem_cons_self
    exact paired_executeIf _ href htext
  case elseIf c =>
    obtain ⟨href, htext⟩ := h.condition List.mem_cons_self
    exact paired_executeBranch _ fun _ hc => by cases hc; exact paired_truth href htext
  case else_ => exact paired_executeBranch _ fun _ hnone => by cases hnone
  case endIf => exact paired_executeEndIf _
  case for_ id => exact paired_beginLoop hloops id
  case next id => exact paired_advanceLoop hloops id
  case skip id => exact paired_advanceLoop hloops id
  case endFor id => exact paired_advanceLoop hloops id
  case skipIf id c =>
    obtain ⟨href, htext⟩ := h.condition List.mem_cons_self
    exact (paired_truth href htext).bind fun _ => couples_ite
      (fun _ => paired_advanceLoop hloops id) fun _ => couples_pure
  case break_ id => exact paired_leaveLoop id
  case breakIf id c =>
    obtain ⟨href, htext⟩ := h.condition List.mem_cons_self
    exact (paired_truth href htext).bind fun _ => couples_ite
      (fun _ => paired_leaveLoop id) fun _ => couples_pure
  case sub name last => exact couples_pure
  case endSub => exact paired_returnWith none
  case gosub name target => exact paired_call _ name target
  case return_ v =>
    cases v with
    | none => exact paired_returnWith none
    | some t =>
      exact (paired_text (h.argument List.mem_cons_self)).bind fun _ => paired_returnWith _
  case endMain => exact couples_pure
  case exit => exact couples_pure

/-- A command that keeps away from files and may be run in memories alike does the same to related
engines. -/
theorem paired_execute_confined (hloops : ∀ id loop, p.loops.loop id = .ok loop →
      ∀ r ∈ loop.references, same ∨ r.showsClock = false)
    (hconfined : entry.command.isConfined = true) : Paired R (execute entry) := by
  cases hs : entry.command.steers with
  | true => exact paired_execute_steering h hs hloops
  | false =>
    refine paired_execute_plain h hs (fun options hrun => paired_applyOptions fun o ho => ?_)
      fun hnot => by cases hconfined.symm.trans hnot
    rw [hrun] at hconfined
    exact like.option (List.all_eq_true.mp hconfined o ho)

end Execute

end CommandScript.Engine
