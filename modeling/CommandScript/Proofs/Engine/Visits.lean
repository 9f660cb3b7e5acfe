import CommandScript.Files.Snapshot
import CommandScript.Proofs.Engine.Flags
import CommandScript.Proofs.Engine.Reachable
import CommandScript.Proofs.Script.Contexts

/-!
# Runs that go on behind faults

`Visits` follows an engine through everything that can be done with it, also behind a fault. All that
a command needs from the tables and from what is in progress is there whatever came before, so no
step has a fault that says that bookkeeping is missing (`not_saysMissing_of_visits`), unless what
reads pictures says so.
-/

namespace CommandScript.Engine

/-- The engines that a program can come to, with faults on the way or without. -/
inductive Visits (p : Program) : Engine → Prop where
  | start {settings : Settings} {log : Log} {clock : Moment} {draw : Generator → Nat → Nat}
      {tree : Files.Tree} {scan : String → Checked String} {e : Engine} :
      (prepare settings).run (ofProgram p settings log clock draw tree scan) = (.ok (), e) →
      Visits p e
  | step {e : Engine} : Visits p e → Visits p e.step.2
  | control {e : Engine} (c : Control) : Visits p e → Visits p (e.control c)
  | turn {e : Engine} : Visits p e → Visits p e.turn.2
  | seeded {e : Engine} (seed : UInt64) : Visits p e → Visits p (e.seeded seed)
  | mailbox {e : Engine} (waiting : List Control) : Visits p e → Visits p (e.withMailbox waiting)
  | clock {e : Engine} (clock : Moment) :
      Visits p e → Visits p { e with memory := { e.memory with clock } }
  | scanner {e : Engine} (scan : String → Checked String) : Visits p e → Visits p { e with scan }

theorem Reachable.visits {p : Program} {e : Engine} (h : Reachable p e) : Visits p e := by
  induction h with
  | start h => exact .start h
  | step _ hs ih =>
    have := ih.step
    rwa [hs] at this
  | control c _ ih => exact ih.control c
  | turn _ ht _ ih =>
    have := ih.turn
    rwa [ht] at this
  | seeded seed _ ih => exact ih.seeded seed
  | mailbox waiting _ ih => exact ih.mailbox waiting
  | clock clock _ ih => exact ih.clock clock

variable {e e' : Engine} {p : Program}

theorem Visits.runFor (h : Visits p e) (turns : Nat) : Visits p (e.runFor turns).2 := by
  induction turns generalizing e with
  | zero => exact h
  | succ turns ih =>
    have hturn := h.turn
    rw [Engine.runFor]
    rcases ht : e.turn with ⟨_ | outcome, after⟩ <;> rw [ht] at hturn
    · exact ih hturn
    · exact hturn

/-! ### Steps and turns taken apart -/

/-- The command that comes next ended in a fault. -/
def FailsBy (e : Engine) (entry : Entry) (g : Fault) (e' : Engine) : Prop :=
  e.program.commands[e.next]? = some entry ∧
    (execute entry).run { e with skipBreakpoint := false } = (.error g, e')

/-- The program ends in the next step, behind its commands or at a command that ends it, and what waits
for a file then is refused. -/
def FailsAtEnd (e : Engine) (g : Fault) (e' : Engine) : Prop :=
  (∃ skipBreakpoint p, Files.Papers.settle.run e.papers = (.error g, p) ∧
      e' = ({ e with skipBreakpoint } : Engine).ended p) ∧
    ∀ entry, e.program.commands[e.next]? = some entry →
      entry.command = .endMain ∨ entry.command = .exit

/-- A command that ends the program does nothing else. -/
theorem eq_of_gives_exit {entry : Entry} (hx : Gives (execute entry) e .exit e') :
    (entry.command = .endMain ∨ entry.command = .exit) ∧ e' = e := by
  have hcommand : entry.command = .endMain ∨ entry.command = .exit := by
    have heffect := effect_of_execute hx
    generalize e'.flow = f at heffect
    cases heffect with
    | exit hcommand => exact hcommand
  refine ⟨hcommand, ?_⟩
  rw [execute] at hx
  rcases hcommand with hc | hc <;> rw [hc] at hx <;> exact (gives_pure.mp hx).2.symm

theorem step_cases (e : Engine) :
    e.step = (.ok (), e) ∨ (e.program.commands[e.next]? = none ∧ e.step = finish.run e) ∨
    (∃ entry m e', e.program.commands[e.next]? = some entry ∧
      Gives (execute entry) { e with skipBreakpoint := false } m e' ∧
      e.step = (follow m).run e') ∨
    ∃ entry g e', e.FailsBy entry g e' ∧
      e.step = (.error (e'.stopOn entry g).1, (e'.stopOn entry g).2) := by
  unfold Engine.step
  split
  · exact .inl rfl
  · split
    · rename_i hend
      exact .inr (.inl ⟨hend, rfl⟩)
    · rename_i entry hentry
      split
      · rename_i m e' hx
        exact .inr (.inr (.inl ⟨entry, m, e', hentry, hx, rfl⟩))
      · rename_i g e' hx
        exact .inr (.inr (.inr ⟨entry, g, e', ⟨hentry, hx⟩, rfl⟩))

/-- A step fails by its command, or because the program ends. -/
theorem step_error {g : Fault} (h : e.step = (.error g, e')) :
    (∃ (entry : Entry) (g' : Fault) (e₁ : Engine), e.FailsBy entry g' e₁ ∧
      g = g'.atLine entry.line entry.text) ∨ e.FailsAtEnd g e' := by
  rcases e.step_cases with hs | ⟨hend, hs⟩ | ⟨entry, m, e₁, he, hx, hs⟩ | ⟨entry, g', e₁, hx, hs⟩ <;>
    rw [hs] at h
  · cases h
  · exact .inr ⟨⟨e.skipBreakpoint, refused_of_finish h⟩,
      fun entry he => by cases hend.symm.trans he⟩
  · cases m with
    | next | jump target => cases h
    | exit =>
      obtain ⟨hcommand, rfl⟩ := eq_of_gives_exit hx
      refine .inr ⟨⟨false, refused_of_finish h⟩, fun other hother => ?_⟩
      rwa [← Option.some.inj (he.symm.trans hother)]
  · exact .inl ⟨entry, g', e₁, hx, (Except.error.inj (congrArg Prod.fst h)).symm⟩

/-- Such a fault is one of files. -/
theorem FailsAtEnd.kind_eq {g : Fault} (h : e.FailsAtEnd g e') : g.kind = .io := by
  obtain ⟨⟨_, p, hrefused, -⟩, -⟩ := h
  exact ((Files.Papers.tidy_settle e.desk.base).of_error rfl hrefused).2

/-- All that a turn does beside steering is a step. -/
theorem turn_cases (e : Engine) :
    (∃ outcome state log, e.turn = (outcome, { e.drained with
      state, memory := { e.drained.memory with log } }) ∧ ∀ g, outcome ≠ some (.error g)) ∨
    ∃ outcome state, e.turn = (outcome, { e.drained.step.2 with state }) ∧
      ∀ g, outcome = some (.error g) → e.drained.step.1 = .error g := by
  have executed : ∃ outcome state,
      e.drained.executeTurn = (outcome, { e.drained.step.2 with state }) ∧
        ∀ g, outcome = some (.error g) → e.drained.step.1 = .error g := by
    unfold executeTurn
    split
    · rename_i g after hs
      rw [hs]
      exact ⟨_, after.state, rfl, fun g' hg => by cases hg; rfl⟩
    · rename_i after hs
      rw [hs]
      split
      · exact ⟨_, .paused, rfl, nofun⟩
      · exact ⟨_, after.state, rfl, nofun⟩
  unfold Engine.turn
  dsimp only
  split
  · exact .inl ⟨_, e.drained.state, e.drained.memory.log, rfl, nofun⟩
  · split
    · exact .inl ⟨_, e.drained.state, e.drained.memory.log, rfl, nofun⟩
    · exact .inl ⟨_, .stopped, _, rfl, nofun⟩
  all_goals
    split
    · exact .inl ⟨_, .paused, _, rfl, nofun⟩
    · exact .inr executed

/-! ### What a run keeps -/

variable {scan : String → Checked String}

theorem Failure.program_eq {f f' : Flow} {entry : Entry} (h : Failure f entry f') :
    f'.program = f.program := by
  cases h <;> rfl

theorem Flow.Steady.start (hn : p.IsNested) : (Flow.start p).Steady :=
  have h := Flow.Scoped.start hn
  ⟨(h.settled_eq hn).symm ▸ h, fun _ hi => absurd hi List.not_mem_nil⟩

/-- The engine runs the program and holds its variables, and its calls, chains and loops in progress
belong to the next command. -/
structure Steady (p : Program) (scan : String → Checked String) (e : Engine) : Prop where
  program : e.program = p
  holds : e.Holds p.store scan
  flow : e.flow.Steady

namespace Steady

theorem of_flow (h : Steady p scan e) (hf : e'.flow = e.flow) (hh : e'.Holds p.store scan) :
    Steady p scan e' where
  program := (congrArg Flow.program hf).trans h.program
  holds := hh
  flow := hf ▸ h.flow

theorem start (hn : p.IsNested) (hf : e.flow = Flow.start p) (hh : e.Holds p.store scan) :
    Steady p scan e where
  program := congrArg Flow.program hf
  holds := hh
  flow := hf ▸ Flow.Steady.start hn

theorem finish (h : Steady p scan e) : Steady p scan (finish.run e).2 := by
  refine ⟨(congrArg Flow.program (flow_finish e)).trans h.program, ?_, ?_⟩
  · obtain ⟨answer, papers, log, heq, -⟩ := e.exists_finish
    rw [heq]
    exact ⟨h.holds.memory, h.holds.initial, h.holds.scan⟩
  · rw [flow_finish]
    exact ⟨⟨h.flow.settled.next_lt, h.flow.settled.calls, h.flow.settled.loops⟩, h.flow.flags⟩

/-- The end of a program says nothing of bookkeeping. -/
theorem not_saysMissing_finish {g : Fault} (hg : (Engine.finish.run e).1 = .error g) : ¬g.SaysMissing := by
  obtain ⟨answer, papers, log, heq, -, hkind⟩ := e.exists_finish
  rw [heq] at hg
  exact Fault.not_saysMissing_of_kind (by rw [hkind g hg]; decide)

theorem control (h : Steady p scan e) (hn : p.IsNested) (c : Control) :
    Steady p scan (e.control c) := by
  have hholds : (e.control c).Holds p.store scan := by
    unfold Engine.control
    cases c with
    | run | resume | step | pause =>
      dsimp only
      split <;> exact ⟨h.holds.memory, h.holds.initial, h.holds.scan⟩
    | stop | breakpoint line => exact ⟨h.holds.memory, h.holds.initial, h.holds.scan⟩
    | reset =>
      obtain ⟨log, hreset⟩ := (e.report .program s!"{Control.reset} received while {e.state}").exists_reset
      dsimp only
      rw [hreset]
      exact ⟨h.holds.initial, h.holds.initial, h.holds.scan⟩
  rcases e.flow_control c with hf | hf
  · exact h.of_flow hf hholds
  · exact .start hn (h.program ▸ hf) hholds

theorem drained (h : Steady p scan e) (hn : p.IsNested) : Steady p scan e.drained :=
  drained_induction h
    (fun _ h => h.of_flow rfl ⟨h.holds.memory, h.holds.initial, h.holds.scan⟩)
    fun _ c h => h.control hn c

/-- A command keeps the run steady whether it succeeds or not, and a fault of it that says that
bookkeeping is missing is one of what reads pictures. -/
theorem step (h : Steady p scan e) (hn : p.IsNested) : Steady p scan e.step.2 ∧
    ∀ g, e.step.1 = .error g → g.SaysMissing → ∃ g', ScanFault scan g' ∧ g'.SaysMissing := by
  have executed {entry : Entry} : Ensures (At e.flow p.store scan) (execute entry)
      (fun _ e' => e'.Holds p.store scan) (Failed e.flow p.store scan entry) :=
    ensures_execute e.flow p.store scan entry
  have hat : At e.flow p.store scan { e with skipBreakpoint := false } :=
    ⟨rfl, h.holds.memory, h.holds.initial, h.holds.scan⟩
  have entry_of {entry : Entry} (hentry : e.program.commands[e.next]? = some entry) :
      e.flow.program.entries[e.flow.next]? = some entry := by
    rw [Program.getElem?_entries]
    exact hentry
  have hprogram : e.flow.program = p := h.program
  have hn' : e.flow.program.IsNested := hprogram ▸ hn
  rcases e.step_cases with hs | ⟨-, hs⟩ | ⟨entry, m, e', hentry, hx, hs⟩ |
    ⟨entry, g, e', ⟨hentry, hx⟩, hs⟩ <;> rw [hs]
  · exact ⟨h, nofun⟩
  · exact ⟨h.finish, fun g hg hm => absurd hm (not_saysMissing_finish hg)⟩
  · have hholds := executed.of_gives hat hx
    have heffect : Effect e.flow entry m e'.flow :=
      effect_of_execute (e := { e with skipBreakpoint := false }) hx
    have hnext : e'.next = e.next := heffect.next_eq
    have move {j : Nat} (hj : m.target? e.next = some j) : Steady p scan { e' with next := j } :=
      ⟨heffect.program_eq.trans h.program, ⟨hholds.memory, hholds.initial, hholds.scan⟩,
        h.flow.effect hn' (entry_of hentry) heffect hj⟩
    cases m with
    | next => exact ⟨move (congrArg (fun n => some (n + 1)) hnext.symm), nofun⟩
    | jump target => exact ⟨move rfl, nofun⟩
    | exit =>
      exact ⟨(h.of_flow heffect.eq_of_exit hholds).finish,
        fun g hg hm => absurd hm (not_saysMissing_finish hg)⟩
  · obtain ⟨hholds, hfailed⟩ := executed.of_error hat hx
    obtain ⟨hg, hfailure⟩ := hfailed (h.flow.supplied hn' (entry_of hentry))
    rw [stopOn_eq]
    refine ⟨⟨hfailure.program_eq.trans hprogram, ⟨hholds.memory, hholds.initial, hholds.scan⟩,
      h.flow.failure hn' (entry_of hentry) hfailure⟩, fun g' hg' hm => ?_⟩
    cases hg'
    have hm := Fault.saysMissing_atLine.mp hm
    exact ⟨g, hg.resolve_left fun hnot => hnot hm, hm⟩

theorem turn (h : Steady p scan e) (hn : p.IsNested) : Steady p scan e.turn.2 ∧
    ∀ g, e.turn.1 = some (.error g) → g.SaysMissing → ∃ g', ScanFault scan g' ∧ g'.SaysMissing := by
  have hdrained := h.drained hn
  rcases e.turn_cases with ⟨outcome, state, log, ht, hnot⟩ | ⟨outcome, state, ht, hstep⟩ <;> rw [ht]
  · exact ⟨hdrained.of_flow rfl
      ⟨hdrained.holds.memory, hdrained.holds.initial, hdrained.holds.scan⟩,
      fun g hg => absurd hg (hnot g)⟩
  · obtain ⟨hafter, hfault⟩ := hdrained.step hn
    exact ⟨hafter.of_flow rfl ⟨hafter.holds.memory, hafter.holds.initial, hafter.holds.scan⟩,
      fun g hg => hfault g (hstep g hg)⟩

theorem runFor (h : Steady p scan e) (hn : p.IsNested) (turns : Nat) :
    Steady p scan (e.runFor turns).2 ∧ ∀ g, (e.runFor turns).1 = some (.error g) →
      g.SaysMissing → ∃ g', ScanFault scan g' ∧ g'.SaysMissing := by
  induction turns generalizing e with
  | zero => exact ⟨h, nofun⟩
  | succ turns ih =>
    have hturn := h.turn hn
    rw [Engine.runFor]
    rcases ht : e.turn with ⟨_ | outcome, after⟩ <;> rw [ht] at hturn
    · exact ih hturn.1
    · exact hturn

theorem prepared {settings : Settings} {log : Log} {clock : Moment} {draw : Generator → Nat → Nat}
    {tree : Files.Tree} (hn : p.IsNested) (hfits : p.store.Fits p.store)
    (h : (prepare settings).run (ofProgram p settings log clock draw tree scan) = (.ok (), e)) :
    Steady p scan e := by
  have hprepare : Stays (At (Flow.start p) p.store scan) (prepare settings) (fun _ => True)
      (Fault.Allowed True) := stays_prepare passesOptions_at settings
  have hat := hprepare.of_gives ⟨rfl, hfits, hfits, rfl⟩ h
  exact .start hn hat.1.1 hat.1.2

end Steady

theorem Visits.steady {settings : Settings} {script : String} {log : Log}
    (hp : (Script.compile settings script log).1 = .ok p) (h : Visits p e) : Steady p e.scan e := by
  have hn := Script.isNested_of_compile hp
  have hfits := Script.fits_of_compile hp
  induction h with
  | start h =>
    have := Steady.prepared hn hfits h
    exact this.holds.scan.symm ▸ this
  | step _ ih =>
    have := (ih.step hn).1
    exact this.holds.scan.symm ▸ this
  | control c _ ih =>
    have := ih.control hn c
    exact this.holds.scan.symm ▸ this
  | turn _ ih =>
    have := (ih.turn hn).1
    exact this.holds.scan.symm ▸ this
  | seeded seed _ ih =>
    exact ih.of_flow rfl ⟨ih.holds.memory.withCells _, ih.holds.initial.withCells _, rfl⟩
  | mailbox waiting _ ih => exact ih.of_flow rfl ⟨ih.holds.memory, ih.holds.initial, rfl⟩
  | clock clock _ ih => exact ih.of_flow rfl ⟨ih.holds.memory, ih.holds.initial, rfl⟩
  | scanner scan _ ih =>
    exact ⟨ih.program, ⟨ih.holds.memory, ih.holds.initial, rfl⟩, ih.flow⟩

/-! ### Faults that are never seen -/

theorem not_saysMissing_noScanner {g : Fault} (h : ScanFault noScanner g) : ¬g.SaysMissing := by
  obtain ⟨path, h⟩ := h
  cases h
  exact fun hm =>
    Bookkeeping.not_of_head (c := 'n') (head_append (head_append (by decide))) rfl hm.2

/-- Whatever was done with the engine of a script, no step of it and no run from there on has a
fault that says that bookkeeping is missing, and what reads pictures is the only thing that could
say so. -/
theorem not_saysMissing_of_visits {settings : Settings} {script : String} {log : Log}
    (hp : (Script.compile settings script log).1 = .ok p) (h : Visits p e) {g : Fault}
    (hg : e.step.1 = .error g ∨ ∃ turns, (e.runFor turns).1 = some (.error g)) :
    (e.scan = noScanner → ¬g.SaysMissing) ∧
      (g.SaysMissing → ∃ path g', e.scan path = .error g' ∧ g'.SaysMissing) := by
  have hn := Script.isNested_of_compile hp
  have scanned (hm : g.SaysMissing) : ∃ g', ScanFault e.scan g' ∧ g'.SaysMissing := by
    rcases hg with hg | ⟨turns, hg⟩
    · exact ((h.steady hp).step hn).2 g hg hm
    · exact ((h.steady hp).runFor hn turns).2 g hg hm
  refine ⟨fun hscan hm => ?_, fun hm => ?_⟩
  · obtain ⟨g', hfault, hm'⟩ := scanned hm
    exact not_saysMissing_noScanner (hscan ▸ hfault) hm'
  · obtain ⟨g', ⟨path, hfault⟩, hm'⟩ := scanned hm
    exact ⟨path, g', hfault, hm'⟩

/-- The script compiles, and its engine, on a tree, passes a check at the beginning. -/
def triedOn (settings : Settings) (tree : Files.Tree) (script : String)
    (check : Program → Engine → Bool) : Bool :=
  match (Script.compile settings script).1 with
  | .error _ => false
  | .ok p =>
    match (prepare settings).run
        (ofProgram p settings {} Moment.epoch dealt tree noScanner) with
    | (.error _, _) => false
    | (.ok (), e) => check p e

theorem exists_of_triedOn (settings : Settings) (tree : Files.Tree) (script : String)
    (check : Program → Engine → Bool) (h : triedOn settings tree script check = true) :
    ∃ p e, (Script.compile settings script).1 = .ok p ∧
      (prepare settings).run
        (ofProgram p settings {} Moment.epoch dealt tree noScanner) = (.ok (), e) ∧
      check p e = true := by
  unfold triedOn at h
  split at h
  · cases h
  · rename_i p hp
    split at h
    · cases h
    · rename_i e he
      exact ⟨p, e, hp, he, h⟩

/-- A tree with a device that is full. -/
def clogged : Files.Tree :=
  ({} : Files.Tree).withDevice ["full", "dev"]

/-- The output is copied to the device. -/
def copying : Settings where
  outputFile := "/dev/full"

/-- The script compiles, and its engine with nothing else passes a check at the beginning. -/
def tried (script : String) (check : Program → Engine → Bool) : Bool :=
  triedOn {} {} script check

theorem exists_of_tried (script : String) (check : Program → Engine → Bool)
    (h : tried script check = true) :
    ∃ p e, (Script.compile {} script).1 = .ok p ∧ (prepare {}).run (bare p) = (.ok (), e) ∧
      check p e = true :=
  exists_of_triedOn {} {} script check h

/-- A loop with a bound that cannot be worked out, inside a chain inside a loop. -/
def unbounded : String :=
  "ALLOCATE GLOBAL Integer n\nFOR i = 0 ; < 2\nIF $i == 0\nFOR j = 1 ; < 5 / $n\nENDFOR\nENDIF\n" ++
    "ENDFOR\n"

/-- The loop is begun again after it was begun in vain. -/
theorem not_saysMissing_unbounded : ∃ p e g, (Script.compile {} unbounded).1 = .ok p ∧
    Visits p e ∧ e.loops.length = 2 ∧ e.step.1 = .error g ∧ ¬g.SaysMissing := by
  obtain ⟨p, e, hp, hready, h⟩ := exists_of_tried unbounded
    (fun _ e => (e.runFor 4).2.loops.length == 2 && !(e.runFor 4).2.step.1.isOk)
    (by decide +kernel)
  simp only [Bool.and_eq_true, beq_iff_eq, Bool.not_eq_true'] at h
  have hvisits : Visits p (e.runFor 4).2 := (Visits.start hready).runFor 4
  cases hg : (e.runFor 4).2.step.1 with
  | ok u =>
    rw [hg] at h
    cases h.2
  | error g =>
    have hn := Script.isNested_of_compile hp
    have hsteady := Steady.prepared hn (Script.fits_of_compile hp) hready
    exact ⟨p, _, g, hp, hvisits, h.1, hg,
      (not_saysMissing_of_visits hp hvisits (.inl hg)).1 (hsteady.runFor hn 4).1.holds.scan⟩

end CommandScript.Engine
