import CommandScript.Proofs.Engine.Relocated
import CommandScript.Proofs.Script.Reordered

/-!
# The order of subroutines

The order in which the subroutines of a script stand makes no difference: with two neighbouring ones
in the other order the script compiles if and only if it did, and its program comes to the same
(`Execution.order_of_subroutines`). The runs are compared through the engines of relocated programs,
which are mates from the beginning (`Execution.abreast_start`). They share their surroundings if they
were prepared among the same files (`Engine.surroundings_of_prepare`); only a program that has to do
with files, or whose output is copied to a full device, needs that.
-/

namespace CommandScript

/-! ### Values -/

/-- Under every name the stores hold the same but for the line and moment of the last write, and the
reserved variables are the same. -/
structure Store.SameValues (s t : Store) : Prop where
  globals : ∀ name, (s.globals.get? name).map Variable.unwritten =
    (t.globals.get? name).map Variable.unwritten
  locals : ∀ key, (s.locals.get? key).map Variable.unwritten =
    (t.locals.get? key).map Variable.unwritten
  cells : s.cells = t.cells

namespace Store

variable {s t u : Store}

theorem SameValues.trans (h : s.SameValues t) (h' : t.SameValues u) : s.SameValues u where
  globals name := (h.globals name).trans (h'.globals name)
  locals key := (h.locals key).trans (h'.locals key)
  cells := h.cells.trans h'.cells

theorem Kindred.sameValues (h : s.Kindred t) : s.SameValues t := by
  have same {x y : Option Variable} (hxy : Option.Rel Variable.Kindred x y) :
      x.map Variable.unwritten = y.map Variable.unwritten := by
    cases hxy with
    | none => rfl
    | some hvw => exact congrArg some hvw.same
  exact ⟨fun name => same (h.globals name), fun key => same (h.locals key), h.cells⟩

theorem sameValues_of_timeless (h : s.timeless = t.timeless) : s.SameValues t := by
  have same {κ : Type} [DecidableEq κ] {m n : Assoc κ Variable}
      (hmn : m.mapValues Variable.timeless = n.mapValues Variable.timeless) (k : κ) :
      (m.get? k).map Variable.unwritten = (n.get? k).map Variable.unwritten := by
    have hget := congrArg (fun m => (Assoc.get? k m).map Variable.unwritten) hmn
    rw [Assoc.get?_mapValues, Assoc.get?_mapValues, Option.map_map, Option.map_map] at hget
    exact hget
  exact ⟨same (congrArg Store.globals h), same (congrArg Store.locals h), (congrArg Store.cells h :)⟩

end Store

/-! ### In the beginning -/

namespace Engine

variable {p q : Program} {e f : Engine}

/-- An engine at the beginning holds what its program begins with; only the random numbers may start
from another seed. -/
theorem Fresh.exists_store (h : Fresh p e) : ∃ generator,
    e.memory.store = { p.store with cells := { p.store.cells with generator } } := by
  induction h with
  | @prepared settings log clock draw tree scan e h =>
    have hpasses : PassesOptions fun e : Engine => e.memory.store = p.store := fun _ _ _ _ _ _ he => he
    have hstays := (stays_prepare (p := True) hpasses settings).of_gives rfl h
    exact ⟨p.store.cells.generator, hstays.1⟩
  | seeded seed _ ih =>
    obtain ⟨generator, hstore⟩ := ih
    exact ⟨{ seed }, congrArg (fun s : Store => { s with cells := s.cells.seeded seed }) hstore⟩

/-- If the random numbers start from the same, the engines of programs with kindred stores have
kindred stores. -/
theorem Fresh.kindred (he : Fresh p e) (hf : Fresh q f) (h : p.store.Kindred q.store)
    (hgenerator : e.memory.store.cells.generator = f.memory.store.cells.generator) :
    e.memory.store.Kindred f.memory.store := by
  obtain ⟨generator, hstore⟩ := he.exists_store
  obtain ⟨generator', hstore'⟩ := hf.exists_store
  rw [hstore, hstore'] at hgenerator ⊢
  obtain rfl : generator = generator' := hgenerator
  exact h.withCells fun cells => { cells with generator }

section Prepared

variable {shared : Prop} {place next : Nat → Nat} {k : Nat} {settings : Settings} {log : Log}
  {clock : Moment} {draw : Generator → Nat → Nat} {tree : Files.Tree} {scan : String → Checked String}

theorem draw_of_prepare
    (h : (prepare settings).run (ofProgram p settings log clock draw tree scan) = (.ok (), e)) :
    e.memory.draw = draw := by
  have hpasses : PassesOptions fun e : Engine => e.memory.draw = draw := fun _ _ _ _ _ _ he => he
  exact ((stays_prepare (p := True) hpasses settings).of_gives rfl h).1

theorem matched_prepare (hs : shared) (hstartup : q.startup = p.startup) (settings : Settings) :
    Matched shared p q place next k (prepare settings) (prepare settings) := by
  have rest : Matched shared p q place next k (do
      applyOptions (← get).program.startup
      modify fun e => { e with base := e.desk.base } : EngineM Unit) (do
      applyOptions (← get).program.startup
      modify fun e => { e with base := e.desk.base } : EngineM Unit) := by
    refine couples_get_bind fun e f hef => ?_
    rw [hef.left, hef.right, hstartup]
    exact (matched_applyOptions fun _ _ => .inl hs).bind fun _ =>
      couples_modify fun _ _ h => { h with }
  exact couples_ite (fun _ => (matched_applyOption (.inl hs)).bind fun _ => rest) fun _ => rest

/-- With the same settings among the same files, engines of relocated programs with the same options
get the same surroundings. -/
theorem surroundings_of_prepare (hpq : p.Relocates q place next) (hstore : p.store.Kindred q.store)
    (hstartup : q.startup = p.startup)
    (he : (prepare settings).run (ofProgram p settings log clock draw tree scan) = (.ok (), e))
    (hf : (prepare settings).run (ofProgram q settings log clock draw tree scan) = (.ok (), f)) :
    e.surroundings = f.surroundings := by
  have hmates : Mates True p q place next 0 (ofProgram p settings log clock draw tree scan)
      (ofProgram q settings log clock draw tree scan) :=
    { left := rfl, right := rfl, here := rfl, there := hpq.start.symm, memory := ⟨hstore, rfl, rfl⟩
      calls := rfl, returns := nofun, taken := rfl, loops := rfl, state := rfl, output := rfl
      finished := rfl, surroundings := fun _ => rfl, takes := absurd trivial }
  obtain ⟨f', hf', hafter⟩ :=
    (matched_prepare trivial hstartup settings).of_gives hmates he
  obtain rfl : f' = f := congrArg Prod.snd (hf'.symm.trans hf)
  exact hafter.surroundings trivial

end Prepared

/-- Engines that have come to the same place of a program and are in the same state, with stores that
are alike. -/
structure Level (same : Prop) (p : Program) (e f : Engine) : Prop extends Abreast same p e f where
  state : e.state = f.state

theorem Level.step {same : Prop} (h : Level same p e f)
    (hclock : same → e.memory.clock = f.memory.clock) (hportable : p.Portable same) :
    e.step.1 = f.step.1 ∧ Level same p e.step.2 f.step.2 := by
  obtain ⟨hanswer, hafter, hstate⟩ : e.step.1 = f.step.1 ∧ Twins same p.store e.step.2 f.step.2 ∧
      e.step.2.state = f.step.2.state := by
    have htwins := h.twins hclock
    have finish (e : Engine) : (finish.run e).2.state = .stopped := by
      obtain ⟨answer, p, log, heq, -⟩ := e.exists_finish
      rw [heq]
      rfl
    let R (e f : Engine) : Prop := Twins same p.store e f ∧ e.state = f.state
    have ends {e f : Engine} (hef : Twins same p.store e f) :
        (Engine.finish.run e).1 = (Engine.finish.run f).1 ∧
          R (Engine.finish.run e).2 (Engine.finish.run f).2 :=
      hef.finish.imp_right fun hafter => ⟨hafter, (finish e).trans (finish f).symm⟩
    refine related_step (R := R) (S := R) ⟨htwins, h.state⟩ (congrArg Engine.flow htwins.progress :)
      (ends htwins) (fun entry hentry => ?_) (fun e f m hef => ?_)
      fun _ _ entry g hef => ⟨hef.1.stopOn entry g, rfl⟩
    · obtain ⟨hanswer, hsince⟩ := htwins.execute h.program hportable hentry
      refine ⟨hanswer, hsince.toTwins, ?_⟩
      have hleft := congrArg Steering.state hsince.left.steering
      have hright := congrArg Steering.state hsince.right.steering
      exact hleft.trans (h.state.trans hright.symm)
    · cases m with
      | next => exact (hef.1.follow .next).imp_right fun hafter => ⟨hafter, hef.2⟩
      | jump target => exact (hef.1.follow (.jump target)).imp_right fun hafter => ⟨hafter, hef.2⟩
      | exit => exact ends hef.1
  exact ⟨hanswer, ⟨program_step h.program h.fits, hafter.memory.fits, hafter.memory.store,
    hafter.progress⟩, hstate⟩

theorem Level.stepsAlike {same : Prop} (hportable : p.Portable same) :
    StepsAlike same p (Level same p) where
  left h := ⟨h.program, h.fits⟩
  right h := ⟨(congrArg Engine.program h.progress.symm :).trans h.program, h.store.fits h.fits⟩
  flow h := (congrArg Engine.flow h.progress :)
  state h := h.state
  clocked now now' h :=
    ⟨(h.toAbreast.unmoved_left (unmoved_clocked _ now)).unmoved_right (unmoved_clocked _ now'), h.state⟩
  step h hclock := h.step hclock hportable

end Engine

namespace Execution

open Engine

variable {p q : Program} {e f : Engine} {settings settings' : Settings} {script script' : String}
  {log log' : Log} {times times' : Nat → Moment}

section Runs

variable (hp : (Script.compile settings script log).1 = .ok p)
  (hq : (Script.compile settings' script' log').1 = .ok q)

include hp hq

/-- Engines at the beginning of relocated programs are abreast. -/
theorem abreast_start {shared : Prop} {place next : Nat → Nat} (hpq : p.Relocates q place next)
    (hstore : p.store.Kindred q.store) (he : Fresh p e) (hf : Fresh q f)
    (hgenerator : e.memory.store.cells.generator = f.memory.store.cells.generator)
    (hdraw : e.memory.draw = f.memory.draw) (hsurroundings : shared → e.surroundings = f.surroundings)
    (hroom : ¬ shared → e.HasRoom ∧ f.HasRoom) :
    Abreast shared p q place next { engine := e } { engine := f } := by
  obtain ⟨hundisturbed, hrunning⟩ := he.undisturbed hp
  obtain ⟨hundisturbed', hrunning'⟩ := hf.undisturbed hq
  have hflow := he.flow
  have hflow' := hf.flow
  have hcalls : e.calls = [] := congrArg Flow.calls hflow
  have hkindred : e.memory.store.Kindred f.memory.store := he.kindred hf hstore hgenerator
  refine ⟨fun now => ?_, rfl, ⟨hundisturbed, .inl hrunning⟩, ⟨hundisturbed', .inl hrunning'⟩,
    he.visits, hf.visits⟩
  refine ⟨congrArg Flow.program hflow, congrArg Flow.program hflow', rfl, ?there,
    ⟨hkindred, rfl, hdraw⟩, ?calls, ?returns, ?taken, ?loops,
    hrunning.trans hrunning'.symm, he.unused.2.1.trans hf.unused.2.1.symm, ?finished, hsurroundings,
    fun hnot => (hroom hnot).imp he.takes hf.takes⟩
  case there =>
    have hnext : e.next = 0 := congrArg Flow.next hflow
    have hnext' : f.next = 0 := congrArg Flow.next hflow'
    show f.next = next e.next
    rw [hnext, hnext', hpq.start]
  case calls =>
    have hcalls' : f.calls = [] := congrArg Flow.calls hflow'
    show f.calls = e.calls.map _
    rw [hcalls, hcalls', List.map_nil]
  case returns =>
    intro frame hframe
    have hmem : frame ∈ e.calls := hframe
    rw [hcalls] at hmem
    cases hmem
  case taken =>
    have htaken : e.taken = [] := congrArg Flow.taken hflow
    have htaken' : f.taken = [] := congrArg Flow.taken hflow'
    show f.taken = e.taken.map _
    rw [htaken, htaken', List.map_nil]
  case loops =>
    have hloops : e.loops = [] := congrArg Flow.loops hflow
    have hloops' : f.loops = [] := congrArg Flow.loops hflow'
    show f.loops = e.loops.map _
    rw [hloops, hloops', List.map_nil]
  case finished =>
    have hfinished : e.finished = false := congrArg Flow.finished hflow
    have hfinished' : f.finished = false := congrArg Flow.finished hflow'
    exact hfinished.trans hfinished'.symm

end Runs

/-! ### Results -/

/-- Two runs come to the same outcome or to faults of one kind, with as many commands executed, the
same output and the same values of all variables. -/
structure SameResult (x y : Option (Checked RunOutcome) × Execution) : Prop where
  outcome : Option.Rel (Checked.Meets Eq) x.1 y.1
  executed : x.2.executed = y.2.executed
  output : x.2.engine.output = y.2.engine.output
  values : x.2.engine.memory.store.SameValues y.2.engine.memory.store

theorem SameResult.trans {x y z : Option (Checked RunOutcome) × Execution} (h : SameResult x y)
    (h' : SameResult y z) : SameResult x z where
  outcome := by
    have houtcome := h.outcome
    have houtcome' := h'.outcome
    generalize x.1 = r at houtcome ⊢
    generalize y.1 = r' at houtcome houtcome'
    generalize z.1 = r'' at houtcome' ⊢
    cases houtcome with
    | none =>
      cases houtcome'
      exact .none
    | some hmeets =>
      cases houtcome' with
      | some hmeets' => exact .some (hmeets.trans hmeets')
  executed := h.executed.trans h'.executed
  output := h.output.trans h'.output
  values := h.values.trans h'.values

/-- A program that ignores the clock comes to the same by any two clocks. -/
theorem sameResult_of_ignoresClock (hp : (Script.compile settings script log).1 = .ok p)
    (he : Fresh p e) (hclock : p.ignoresClock = true) (times times' : Nat → Moment) (turns : Nat) :
    SameResult (run times turns { engine := e }) (run times' turns { engine := e }) := by
  obtain ⟨hundisturbed, hrunning⟩ := he.undisturbed hp
  have hsteady := he.visits.steady hp
  have hmatched : Matched (Level (times = times') p) { engine := e } { engine := e } :=
    ⟨⟨⟨hsteady.program, hsteady.holds.memory, .refl _ _, rfl⟩, rfl⟩, rfl,
      ⟨hundisturbed, .inl hrunning⟩, ⟨hundisturbed, .inl hrunning⟩⟩
  obtain ⟨houtcome, hbehind⟩ :=
    hmatched.run (Level.stepsAlike (Program.portable (.inr hclock))) turns
  have hengines := hbehind.engines
  refine ⟨?_, hbehind.executed, (congrArg Engine.output hengines.progress :),
    Store.sameValues_of_timeless hengines.store.timeless⟩
  rw [houtcome]
  cases (run times' turns { engine := e }).1 with
  | none => exact .none
  | some outcome => exact .some Checked.meets_self

/-- The order of two neighbouring subroutines makes no difference. The script compiles with either
order or with none, and a program that keeps away from the lines of writes comes to the same result
with either order, if the random numbers start from the same, and, where it has to do with files or a
full device gets a copy of the output, the runs begin in the same surroundings. Another clock makes no
difference to a program that ignores it, nor to one that comes to the same by both clocks. -/
theorem order_of_subroutines (h : Script.Reordered script script') :
    ((∃ p, (Script.compile settings script log).1 = .ok p) ↔
      ∃ q, (Script.compile settings script' log).1 = .ok q) ∧
    ∀ p q, (Script.compile settings script log).1 = .ok p →
      (Script.compile settings script' log).1 = .ok q → q.startup = p.startup ∧
      (p.ignoresWriter = true → ∀ e f, Fresh p e → Fresh q f →
        (p.isConfined = true ∧ e.HasRoom ∧ f.HasRoom ∨ e.surroundings = f.surroundings) →
        e.memory.store.cells.generator = f.memory.store.cells.generator →
        e.memory.draw = f.memory.draw → ∀ times turns,
        let first (times : Nat → Moment) := run times turns { engine := e }
        let second (times : Nat → Moment) := run times turns { engine := f }
        SameResult (first times) (second times) ∧
        ∀ times', (p.ignoresClock = true ∨ SameResult (first times) (first times')) →
          SameResult (first times) (second times')) := by
  refine ⟨h.compiles_iff, fun p q hp hq => ?_⟩
  obtain ⟨c, x, y, hswapped, hstore, hstartup⟩ := h.exists_swapped hp hq
  refine ⟨hstartup, fun hwriter e f he hf hfiles hgenerator hdraw times turns => ?_⟩
  intro first second
  have hsame (times : Nat → Moment) : SameResult (first times) (second times) := by
    have hstart := abreast_start hp hq hswapped.relocates hstore he hf hgenerator hdraw id
      fun hnot => (hfiles.resolve_right hnot).2
    obtain ⟨houtcome, hbehind⟩ : Option.Rel (Checked.Meets Eq) (first times).1 (second times).1 ∧
        Abreast (e.surroundings = f.surroundings) p q c.place c.next (first times).2
          (second times).2 :=
      hstart.run hp hq hswapped.relocates (hfiles.symm.imp_right And.left) hwriter turns
    have hmates := hbehind.engines .epoch
    exact ⟨houtcome, hbehind.executed, hmates.output, hmates.memory.store.sameValues⟩
  refine ⟨hsame times, fun times' hclock => ?_⟩
  have hfirst : SameResult (first times) (first times') :=
    hclock.elim (sameResult_of_ignoresClock hp he · times times' turns) id
  exact hfirst.trans (hsame times')

/-- A script that calls a subroutine. -/
def calling (subroutines : List String) : String :=
  "\n".intercalate (["GOSUB a", "ENDMAIN"] ++ subroutines)

/-- A subroutine that adds up dice, has the sum copied to a file, calls itself and divides by zero in
the end. -/
def rolling : List String :=
  ["SUB a", "RUN -ofile sum", "SET n += $RANDOM % 6", "PRINT $n", "IF $n > 7", "SET n = 5 / ($n - $n)",
    "ENDIF", "GOSUB a", "ENDSUB"]

/-- A subroutine that allocates what the other one adds up. -/
def keeping : List String := ["SUB b", "ALLOCATE GLOBAL Integer n", "ENDSUB"]

theorem reordered_calling :
    Script.Reordered (calling (rolling ++ keeping)) (calling (keeping ++ rolling)) := by
  have hrolling : Script.linesFrom 1 rolling = ⟨1, "SUB a"⟩ :: ([⟨2, "RUN -ofile sum"⟩,
      ⟨3, "SET n += $RANDOM % 6"⟩, ⟨4, "PRINT $n"⟩, ⟨5, "IF $n > 7"⟩, ⟨6, "SET n = 5 / ($n - $n)"⟩,
      ⟨7, "ENDIF"⟩, ⟨8, "GOSUB a"⟩] ++ [⟨9, "ENDSUB"⟩]) := by decide +kernel
  have hkeeping : Script.linesFrom 1 keeping =
      ⟨1, "SUB b"⟩ :: ([⟨2, "ALLOCATE GLOBAL Integer n"⟩] ++ [⟨3, "ENDSUB"⟩]) := by
    decide +kernel
  have hroll : Script.IsBlock "a" (Script.linesFrom 1 rolling) := by
    rw [hrolling]
    exact .mk (by decide +kernel) (by decide +kernel) (by decide +kernel)
  have hkeep : Script.IsBlock "b" (Script.linesFrom 1 keeping) := by
    rw [hkeeping]
    exact .mk (by decide +kernel) (by decide +kernel) (by decide +kernel)
  have hlines : Text.lines (calling (rolling ++ keeping)) =
      ["GOSUB a", "ENDMAIN"] ++ ((rolling ++ keeping) ++ []) := by decide +kernel
  have hlines' : Text.lines (calling (keeping ++ rolling)) =
      ["GOSUB a", "ENDMAIN"] ++ ((keeping ++ rolling) ++ []) := by decide +kernel
  exact .mk hlines hlines' hroll hkeep

/-- In either order the script prints three sums and then divides by zero. -/
theorem order_of_rolling : ∃ (p q : Program) (e f : Engine),
    (Script.compile {} (calling (rolling ++ keeping))).1 = .ok p ∧
    (Script.compile {} (calling (keeping ++ rolling))).1 = .ok q ∧ p.commands ≠ q.commands ∧
    p.ignoresWriter = true ∧ p.ignoresClock = true ∧ Fresh p e ∧ Fresh q f ∧
    p.isConfined = false ∧ e.surroundings = f.surroundings ∧
    e.memory.store.cells.generator = f.memory.store.cells.generator ∧ e.memory.draw = f.memory.draw ∧
    let first := run ticking 60 { engine := e }
    let second := run (fun _ => .epoch) 60 { engine := f }
    (∃ g, first.1 = some (.error g)) ∧ first.2.engine.output.size = 3 ∧ SameResult first second := by
  obtain ⟨p, e, hp, hready, h⟩ := exists_of_tried (calling (rolling ++ keeping))
    (fun p e =>
      let first := run ticking 60 { engine := e }
      !p.isConfined && p.ignoresWriter && p.ignoresClock && e.memory.store.cells.generator == {} &&
        first.1.any (!·.isOk) && first.2.engine.output.size == 3 &&
        p.commands[3]?.any (·.command.keyword == .run))
    (by decide +kernel)
  obtain ⟨q, f, hq, hready', h'⟩ := exists_of_tried (calling (keeping ++ rolling))
    (fun q f => f.memory.store.cells.generator == {} &&
      q.commands[3]?.all (·.command.keyword != .run))
    (by decide +kernel)
  simp only [Bool.and_eq_true, Bool.not_eq_true', beq_iff_eq] at h h'
  obtain ⟨⟨⟨⟨⟨⟨hconfined, hwriter⟩, hclock⟩, hgenerator⟩, houtcome⟩, hprinted⟩, hrun⟩ := h
  obtain ⟨hgenerator', hother⟩ := h'
  have hsame := hgenerator.trans hgenerator'.symm
  obtain ⟨c, x, y, hswapped, hstore, hstartup⟩ := reordered_calling.exists_swapped hp hq
  have hsurroundings : e.surroundings = f.surroundings :=
    surroundings_of_prepare hswapped.relocates hstore hstartup hready hready'
  have hdraw : e.memory.draw = f.memory.draw := (draw_of_prepare hready).trans (draw_of_prepare hready').symm
  obtain ⟨-, hruns⟩ := (order_of_subroutines reordered_calling).2 p q hp hq
  obtain ⟨-, hresult⟩ := hruns hwriter e f (.prepared hready) (.prepared hready')
    (.inr hsurroundings) hsame hdraw ticking 60
  have hcommands : p.commands ≠ q.commands := by
    intro heq
    rw [heq] at hrun
    obtain ⟨entry, hentry, hkeyword⟩ := (Option.any_eq_true _ _).mp hrun
    rw [hentry, Option.all_some, bne_iff_ne] at hother
    exact hother (beq_iff_eq.mp hkeyword)
  obtain ⟨outcome, houtcome, hfails⟩ := (Option.any_eq_true _ _).mp houtcome
  refine ⟨p, q, e, f, hp, hq, hcommands, hwriter, hclock, .prepared hready, .prepared hready',
    hconfined, hsurroundings, hsame, hdraw, ?_, hprinted, hresult _ (.inl hclock)⟩
  cases outcome with
  | error g => exact ⟨g, houtcome⟩
  | ok _ => cases hfails

end Execution

end CommandScript
