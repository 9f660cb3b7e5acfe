import CommandScript.Proofs.Engine.Visits

/-!
# The references of the next command

The compiler gives every reference of a line a type, in the context of the line. When the command of
the line comes next in a run, the value that is looked up has this type (`typed_of_reachable`). A
look-up fails for what the compiler cannot know, positions and texts that are no numbers, and beside
this only where a record is asked for that nobody keeps (`fault_of_reachable`).
-/

namespace CommandScript

/-- The memories that look-ups can make of a memory. -/
inductive Memory.Looked (m : Memory) : Memory → Prop where
  | nothing : Looked m m
  | look {m' : Memory} (v : Viewpoint) (r : Reference) :
      Looked m m' → Looked m ((v.look r).run m').2

theorem Memory.Looked.fits {s : Store} {m m' : Memory} (h : m.Looked m') (hm : s.Fits m.store) :
    s.Fits m'.store := by
  induction h with
  | nothing => exact hm
  | @look m' v r _ ih =>
    have hlook := Viewpoint.stays_look (v := v) (s := s) r m' ih
    rcases hr : (v.look r).run m' with ⟨g | w, m₂⟩ <;> rw [hr] at hlook
    · exact hlook.1
    · exact hlook.1

/-! ### Places and viewpoints -/

namespace Viewpoint

theorem loops_context (v : Viewpoint) (s : Store) : (v.context s).loops =
    ((v.loops.map ActiveLoop.label).filter fun x => x.1 == v.depth).map Prod.snd := by
  rw [List.filter_map, List.map_map]
  rfl

/-- A viewpoint is known by its loops, not by the numbers that they hold. -/
theorem context_withLoops {v : Viewpoint} {loops : List ActiveLoop}
    (h : loops.map ActiveLoop.label = v.loops.map ActiveLoop.label) (s : Store) :
    ({ v with loops } : Viewpoint).context s = v.context s := by
  have hloops : (({ v with loops } : Viewpoint).context s).loops = (v.context s).loops := by
    rw [loops_context, loops_context, h]
  exact congrArg (fun loops => { v.context s with loops }) hloops

/-- One more loop at the depth of the viewpoint. -/
theorem context_begun (v : Viewpoint) (s : Store) (id : LoopId) (n : Int64) :
    ({ v with loops := ⟨v.depth, id, n⟩ :: v.loops } : Viewpoint).context s =
      (v.context s).within id := by
  have hloops : (({ v with loops := ⟨v.depth, id, n⟩ :: v.loops } : Viewpoint).context s).loops =
      id :: (v.context s).loops := by
    rw [loops_context, loops_context, List.map_cons,
      List.filter_cons_of_pos (by exact beq_self_eq_true v.depth)]
    rfl
  exact congrArg (fun loops => { v.context s with loops }) hloops

end Viewpoint

/-- What can be read inside a loop can be read at its `FOR`, its variable apart. -/
theorem Program.IsNested.contextAt_of_loop {p : Program} (hn : p.IsNested) {k : Nat} {id : LoopId}
    (h : (loopsOf (p.around k)).head? = some id) :
    p.contextAt k = (p.contextAt id.index).within id := by
  have howner : Script.ownerAt p.entries k = Script.ownerAt p.entries id.index :=
    congrArg (·.getD mainOwner) (hn.nested.subOf?_eq h)
  have hloops : loopsOf (p.around k) = id :: loopsOf (p.around id.index) :=
    hn.nested.loopsOf_eq_cons h
  rw [Program.contextAt, howner, hloops]
  rfl

/-- The context with more loops open. -/
def Context.inside (c : Context) (inner : List LoopId) : Context :=
  { c with loops := inner ++ c.loops }

/-- The command changes an array. -/
def Command.changesArray : Command → Bool
  | insert .. | append .. | modify .. | remove .. | truncate .. | pop .. | filter .. | reset _ =>
    true
  | _ => false

/-- The reference asks who wrote a reserved variable, or when; of this there is no record. -/
def Reference.Unrecorded (r : Reference) : Prop :=
  (Reserved.ofName? r.name).isSome = true ∧ ∃ view, r.trait = some view ∧ view.isMetadata = true

/-- A loop variable has no such record either, but the compiler refuses to look for one. -/
theorem Context.isLoop_of_metadata {c : Context} {r : Reference} {t : ValueType}
    (h : c.referenceType r = .ok t) {view : Trait} (hr : r.trait = some view)
    (hm : view.isMetadata = true) : c.isLoop r.name = false := by
  rw [← Bool.not_eq_true]
  intro hl
  have hloop := (Context.referenceType_ok.mp h).2
  rw [if_pos hl] at hloop
  rcases Context.loopType_ok hloop with ⟨hnone, -⟩ | ⟨hhex, -⟩
  · cases hr.symm.trans hnone
  · cases hr.symm.trans hhex
    cases hm

theorem Viewpoint.look_unrecorded {v : Viewpoint} {s : Store} {r : Reference} (h : r.Unrecorded)
    (hl : (v.context s).isLoop r.name = false) {m : Memory} (hm : s.Fits m.store) :
    ∃ g, (v.look r).run m = (.error g, m) ∧ g.kind = .undefined := by
  obtain ⟨hreserved, view, hr, hmeta⟩ := h
  have hnone : v.loopValue? r.name = none := by
    rw [isLoop_context] at hl
    exact Option.not_isSome_iff_eq_none.mp (by rw [hl]; exact Bool.false_ne_true)
  have hfind : m.store.find? r.name v.owner = none := by
    cases hv : m.store.find? r.name v.owner with
    | none => rfl
    | some found =>
      rw [hm.unreserved hv] at hreserved
      cases hreserved
  have hget : m.store.get r.name v.owner =
      .error (.cause .undefined s!"${r.name} (in {v.owner})") := by
    rw [Store.get, hfind]
    rfl
  refine ⟨.cause .undefined s!"${r.name} (in {v.owner})", ?_, rfl⟩
  rw [look, hnone, hr]
  dsimp only
  rw [if_pos hmeta, metadata, run_bind, show (get : MemoryM Memory).run m = (.ok m, m) from rfl]
  dsimp only
  rw [hget, run_bind]
  rfl

namespace Engine

/-- What can be read in a run is what can be read at the place that it has come to. -/
theorem Flow.Scoped.context_eq {f : Flow} (h : f.Scoped) :
    f.context f.program.store = f.program.contextAt f.next := by
  have hloops : (f.context f.program.store).loops = loopsOf (f.program.around f.next) := by
    refine (Viewpoint.loops_context _ _).trans ?_
    rw [show f.viewpoint.loops.map ActiveLoop.label = _ from h.loops, List.filter_append,
      show f.viewpoint.depth = f.depth from rfl, Program.filter_depth, Flow.depth,
      Program.filter_loopsBelow, List.append_nil, List.map_map]
    exact List.map_id _
  have howner : f.viewpoint.owner = Script.ownerAt f.program.entries f.next := by
    have hsub : subOf? (around f.program.entries f.next) = f.calls.head?.map (·.subroutine) :=
      h.calls.owner
    rw [Script.ownerAt, hsub, Flow.viewpoint]
    cases f.calls <;> rfl
  rw [Program.contextAt, ← howner, ← hloops]
  rfl

/-! ### What a command looks up -/

/-- The command of the entry, which comes next, may look up the reference `r` from the viewpoint `v`;
it is a reference of the line of the command at `k`, where the line has the loops `inner` open in
addition. A command looks up what its own line holds. A `FOR` works out where its loop starts while
the loop does not run, and where it stops while the loop runs; a command that goes on with a loop
works out its step, moves it on and works out again where it stops. -/
inductive Resolves (e : Engine) (entry : Entry) :
    Viewpoint → Nat → List LoopId → Reference → Prop where
  | own {r : Reference} : r ∈ entry.command.references → Resolves e entry e.viewpoint e.next [] r
  | start {id : LoopId} {loop : Loop} {r : Reference} : entry.command = .for_ id →
      e.program.loops.loop id = .ok loop → r ∈ loop.start.references →
      Resolves e entry
        { e.viewpoint with loops := e.loops.filter fun l => !isRun e.depth id l } e.next [] r
  | stop {id : LoopId} {loop : Loop} {r : Reference} (n : Int64) : entry.command = .for_ id →
      e.program.loops.loop id = .ok loop → r ∈ loop.stop.references →
      Resolves e entry
        { e.viewpoint with
          loops := ⟨e.depth, id, n⟩ :: e.loops.filter fun l => !isRun e.depth id l } e.next [id] r
  | step {id : LoopId} {loop : Loop} {r : Reference} : goesOnWith? entry.command = some id →
      e.program.loops.loop id = .ok loop → r ∈ loop.step.references →
      Resolves e entry e.viewpoint id.index [id] r
  | again {id : LoopId} {loop : Loop} {r : Reference} {after before : List ActiveLoop}
      {run : ActiveLoop} (n : Int64) : goesOnWith? entry.command = some id →
      e.flow.Runs id after run before → e.program.loops.loop id = .ok loop →
      r ∈ loop.stop.references →
      Resolves e entry { e.viewpoint with loops := after ++ { run with value := n } :: before }
        id.index [id] r

variable {settings : Settings} {script : String} {log : Log} {p : Program} {e : Engine}
  {entry : Entry} {v : Viewpoint} {k : Nat} {inner : List LoopId} {r : Reference}

/-- The line of a `FOR` gave the references of its formulas types. -/
theorem exists_contextOf_loop (hp : (Script.compile settings script log).1 = .ok p) {id : LoopId}
    {loop : Loop} (ho : Opens p.entries (.loop id)) (hloop : p.loops.loop id = .ok loop) :
    ∃ c, Script.contextOf settings script log id.index = some c ∧
      c.Extends (p.contextAt id.index) ∧ c.checkFormula loop.start = .ok () ∧
      (c.within id).checkFormula loop.stop = .ok () ∧
      (c.within id).checkFormula loop.step = .ok () := by
  have hn := Script.isNested_of_compile hp
  obtain ⟨entry, he, hc⟩ := Nested.command_of_opens_loop ho
  obtain ⟨c, hcontext, -, hextends, hadmits⟩ :=
    Script.exists_contextOf hp he (hn.succ_lt he (by rw [hc]; exact nofun))
  have hl := hadmits hc hloop
  have hid : loop.id = id := hn.loops.id_eq id loop (LoopTable.loop_ok.mp hloop)
  exact ⟨c, hcontext, hextends, hl.start, hid ▸ hl.stop, hid ▸ hl.step⟩

/-- The line of the reference gave it a type, and to all that it read from there as well. -/
theorem Resolves.typed (hp : (Script.compile settings script log).1 = .ok p)
    (hprogram : e.program = p) (hs : e.flow.Scoped) (he : p.entries[e.next]? = some entry)
    (h : Resolves e entry v k inner r) :
    ∃ c t, Script.contextOf settings script log k = some c ∧
      (c.inside inner).referenceType r = .ok t ∧ (c.inside inner).Extends (v.context p.store) := by
  subst hprogram
  have hn := Script.isNested_of_compile hp
  have hhere : e.viewpoint.context e.program.store = e.program.contextAt e.next := hs.context_eq
  have begins {id : LoopId} (hc : entry.command = .for_ id) :
      id.index = e.next ∧ Opens e.program.entries (.loop id) ∧
        (e.loops.filter fun l => !isRun e.depth id l) = e.viewpoint.loops := by
    obtain ⟨hid, ho⟩ := hn.nested.opens_loop he hc
    exact ⟨hid, ho, hs.filter_loops hn hid⟩
  have goesOn {id : LoopId} (hc : goesOnWith? entry.command = some id) :
      Opens e.program.entries (.loop id) ∧
        e.viewpoint.context e.program.store = (e.program.contextAt id.index).within id := by
    have hhead := head_loops_of_fits (hn.nested.fits he) (.inl hc)
    exact ⟨hn.nested.opens_of_head_loops hhead, hhere.trans (hn.contextAt_of_loop hhead)⟩
  cases h with
  | own hr =>
    obtain ⟨c, hcontext, hadmits, hextends, -⟩ :=
      Script.exists_contextOf hp he (hn.succ_lt he fun hc => by rw [hc] at hr; cases hr)
    obtain ⟨t, ht⟩ := hadmits.typed r hr
    exact ⟨c, t, hcontext, ht, hhere ▸ hextends⟩
  | start hc hloop hr =>
    obtain ⟨hid, ho, hloops⟩ := begins hc
    obtain ⟨c, hcontext, hextends, hstart, -⟩ := exists_contextOf_loop hp ho hloop
    obtain ⟨t, ht⟩ := Context.typed_of_formula hstart r hr
    rw [hid] at hcontext hextends
    rw [hloops]
    exact ⟨c, t, hcontext, ht, hhere ▸ hextends⟩
  | stop n hc hloop hr =>
    obtain ⟨hid, ho, hloops⟩ := begins hc
    obtain ⟨c, hcontext, hextends, -, hstop, -⟩ := exists_contextOf_loop hp ho hloop
    obtain ⟨t, ht⟩ := Context.typed_of_formula hstop r hr
    rw [hid] at hcontext hextends
    rw [hloops]
    refine ⟨c, t, hcontext, ht, ?_⟩
    rw [show e.depth = e.viewpoint.depth from rfl, Viewpoint.context_begun, hhere]
    exact hextends.within _
  | step hc hloop hr =>
    obtain ⟨ho, hthere⟩ := goesOn hc
    obtain ⟨c, hcontext, hextends, -, -, hstep⟩ := exists_contextOf_loop hp ho hloop
    obtain ⟨t, ht⟩ := Context.typed_of_formula hstep r hr
    exact ⟨c, t, hcontext, ht, hthere ▸ hextends.within _⟩
  | again n hc hruns hloop hr =>
    obtain ⟨ho, hthere⟩ := goesOn hc
    obtain ⟨c, hcontext, hextends, -, hstop, -⟩ := exists_contextOf_loop hp ho hloop
    obtain ⟨t, ht⟩ := Context.typed_of_formula hstop r hr
    refine ⟨c, t, hcontext, ht, ?_⟩
    rw [Viewpoint.context_withLoops, hthere]
    · exact hextends.within _
    · rw [show e.viewpoint.loops = _ from hruns.loops]
      simp only [List.map_append, List.map_cons]
      rfl

theorem Reachable.holds (hp : (Script.compile settings script log).1 = .ok p) (h : Reachable p e) :
    e.Holds p.store e.scan :=
  (h.visits.steady hp).holds

theorem Reachable.resolves_typed (hp : (Script.compile settings script log).1 = .ok p)
    (h : Reachable p e) (he : p.commands[e.next]? = some entry)
    (hr : Resolves e entry v k inner r) :
    ∃ c t, Script.contextOf settings script log k = some c ∧
      (c.inside inner).referenceType r = .ok t ∧ (c.inside inner).Extends (v.context p.store) := by
  obtain ⟨hprogram, hscoped⟩ := h.sound (Script.isNested_of_compile hp)
  exact hr.typed hp hprogram hscoped ((Program.getElem?_entries ..).trans he)

/-- In a run, the command that comes next is admitted where it stands. -/
theorem Reachable.admits (hp : (Script.compile settings script log).1 = .ok p) (h : Reachable p e)
    (he : p.commands[e.next]? = some entry) (hc : entry.command ≠ .exit) :
    (e.flow.context p.store).Admits entry.command := by
  have hn := Script.isNested_of_compile hp
  obtain ⟨rfl, hscoped⟩ := h.sound hn
  have hentry : e.program.entries[e.next]? = some entry := (Program.getElem?_entries ..).trans he
  obtain ⟨c, -, hadmits, hextends, -⟩ := Script.exists_contextOf hp hentry (hn.succ_lt hentry hc)
  exact hscoped.context_eq ▸ hextends.admits hadmits

/-! ### Values have the types of the compiler -/

variable {g : Fault}

/-- An assignment in a run finds types that do not fit only in its condition. -/
theorem Reachable.mismatch_of_set (hp : (Script.compile settings script log).1 = .ok p)
    (h : Reachable p e) (he : p.commands[e.next]? = some entry) {target : String} {op : AssignOp}
    {right : RightSide} (hc : entry.command = .set target op right) {e' : Engine}
    (hx : (execute entry).run { e with skipBreakpoint := false } = (.error g, e'))
    (hg : g.kind = .typeMismatch) :
    ∃ c, right = .truth c ∧
      (truth c).run { e with skipBreakpoint := false } = (.error g, e') := by
  have hadmits := h.admits hp he (by rw [hc]; exact nofun)
  have hholds := h.holds hp
  have hat : At e.flow p.store e.scan { e with skipBreakpoint := false } :=
    ⟨rfl, hholds.memory, hholds.initial, rfl⟩
  rw [hc] at hadmits
  have hassign := Ensures.bind (ensures_assign hat entry.line target op right)
    (f := fun _ => (pure .next : EngineM Move)) (R := fun _ _ => True)
    fun _ => ensures_pure fun _ _ => trivial
  have hx : (andNext (assign entry.line target op right)).run { e with skipBreakpoint := false } =
      (.error g, e') := by
    unfold execute at hx
    rwa [hc] at hx
  obtain ⟨-, hcondition | hallowed⟩ := hassign.of_error rfl hx
  · exact hcondition
  · exact absurd hg (hallowed.2 hadmits)

/-- A command of a run that changes an array has an array, and entries that go into it. -/
theorem Reachable.not_mismatch_of_changesArray (hp : (Script.compile settings script log).1 = .ok p)
    (h : Reachable p e) (he : p.commands[e.next]? = some entry)
    (hc : entry.command.changesArray = true) {e' : Engine}
    (hx : (execute entry).run { e with skipBreakpoint := false } = (.error g, e')) :
    g.kind ≠ .typeMismatch := by
  have hadmits := h.admits hp he fun heq => by rw [heq] at hc; cases hc
  have hholds := h.holds hp
  have hplain : entry.command.steers = false ∧ entry.command.conditions = [] ∧
      ∀ path, entry.command ≠ .scan path := by
    cases hcmd : entry.command <;> rw [hcmd] at hc <;>
      first | exact absurd hc Bool.false_ne_true | exact ⟨rfl, rfl, fun _ => nofun⟩
  have hat : At e.flow p.store e.scan { e with skipBreakpoint := false } :=
    ⟨rfl, hholds.memory, hholds.initial, rfl⟩
  have hexecute := (stays_execute hplain.1).of_error hat hx
  obtain ⟨-, hallowed | ⟨⟨path, hscan⟩, -⟩⟩ := hexecute
  · exact hallowed.2 ⟨hadmits, hplain.2.1⟩
  · exact absurd hscan (hplain.2.2 path)

/-- Wherever a run has come to, what the next command looks up has the type that the compiler gave the
reference in the line that holds it. So an assignment finds types that do not fit nowhere but in its
condition, which may follow references in texts, and a command that changes an array finds an array
of the right kind. -/
theorem typed_of_reachable (hp : (Script.compile settings script log).1 = .ok p) (h : Reachable p e)
    (he : p.commands[e.next]? = some entry) :
    (∀ {v k inner r}, Resolves e entry v k inner r →
      ∃ c t, Script.contextOf settings script log k = some c ∧
        (c.inside inner).referenceType r = .ok t ∧
        ∀ {m m' w}, e.memory.Looked m → (v.look r).run m = (.ok w, m') → w.type = t) ∧
    ∀ {g}, e.step.1 = .error g → g.kind = .typeMismatch →
      entry.command.changesArray = false ∧
      ∀ {target op right}, entry.command = .set target op right → ∃ c g' e', right = .truth c ∧
        (truth c).run { e with skipBreakpoint := false } = (.error g', e') ∧
        g = g'.atLine entry.line entry.text := by
  constructor
  · intro v k inner r hr
    obtain ⟨c, t, hcontext, ht, hextends⟩ := h.resolves_typed hp he hr
    refine ⟨c, t, hcontext, ht, fun {m m' w} hm hlook => ?_⟩
    have hfits := hm.fits (h.holds hp).memory
    exact ((Viewpoint.stays_look r).of_gives hfits hlook).2 t (hextends.referenceType ht)
  · intro g hg hkind
    obtain ⟨rfl, -⟩ := h.sound (Script.isNested_of_compile hp)
    obtain ⟨other, g', e', ⟨hother, hx⟩, rfl⟩ | hend := step_error (e := e) (Prod.ext hg rfl)
    case inr => cases hkind.symm.trans hend.kind_eq
    obtain rfl := Option.some.inj (he.symm.trans hother)
    rw [Fault.kind_atLine] at hkind
    refine ⟨Bool.eq_false_iff.mpr fun hc => ?_, fun hc => ?_⟩
    · exact h.not_mismatch_of_changesArray hp he hc hx hkind
    · obtain ⟨c, hright, hcondition⟩ := h.mismatch_of_set hp he hc hx hkind
      exact ⟨c, g', e', hright, hcondition, rfl⟩

/-- After some turns of the script, the next command has the reference `r` and no other, and what a
look-up of it gives passes a check. -/
def looksUp (script : String) (turns : Nat) (r : Reference) (check : Checked Value → Bool) : Bool :=
  tried script fun p e =>
    let (outcome, e) := e.runFor turns
    outcome.isNone && (p.commands[e.next]?.map (·.command.references)) == some [r] &&
      check ((e.viewpoint.look r).run e.memory).1

theorem exists_of_looksUp (script : String) (turns : Nat) (r : Reference)
    (check : Checked Value → Bool) (h : looksUp script turns r check = true) :
    ∃ p e entry, (Script.compile {} script).1 = .ok p ∧ Reachable p e ∧
      p.commands[e.next]? = some entry ∧ Resolves e entry e.viewpoint e.next [] r ∧
      check ((e.viewpoint.look r).run e.memory).1 = true := by
  obtain ⟨p, e, hp, hready, h⟩ := exists_of_tried _ _ h
  simp only [Bool.and_eq_true, beq_iff_eq, Option.isNone_iff_eq_none] at h
  obtain ⟨⟨hnone, hentry⟩, hcheck⟩ := h
  obtain ⟨entry, he, hrefs⟩ := Option.map_eq_some_iff.mp hentry
  exact ⟨p, _, entry, hp, (Reachable.start hready).runFor turns (by rw [hnone]; exact nofun), he,
    .own (by rw [hrefs]; exact List.mem_cons_self), hcheck⟩

/-- A script that goes through an array. -/
def passage : String :=
  "ALLOCATE GLOBAL StrArray a\nAPPEND a \"x\"\nFOR i = 0 ; < $a.SIZE\nPRINT $a[$i].UPPER\nENDFOR\n"

/-- The entry that the loop has come to, in capitals. -/
def passed : Reference := ⟨"a", some (.single (.named "i")), some .upper⟩

theorem typed_of_reachable_passage : ∃ (p : Program) (e : Engine) (entry : Entry) (c : Context)
    (m' : Memory), (Script.compile {} passage).1 = .ok p ∧ Reachable p e ∧
    p.commands[e.next]? = some entry ∧ Resolves e entry e.viewpoint e.next [] passed ∧
    (e.viewpoint.look passed).run e.memory = (.ok (.string "X"), m') ∧
    Script.contextOf {} passage {} e.next = some c ∧ c.referenceType passed = .ok .string := by
  obtain ⟨p, e, entry, hp, hreach, he, hr, h⟩ := exists_of_looksUp passage 3 passed
    (fun result => result.toOption == some (.string "X")) (by decide +kernel)
  rcases hlook : (e.viewpoint.look passed).run e.memory with ⟨g | w, m'⟩ <;> rw [hlook] at h
  · cases h
  · obtain rfl := Option.some.inj (eq_of_beq h)
    obtain ⟨c, t, hcontext, ht, hvalue⟩ := (typed_of_reachable hp hreach he).1 hr
    obtain rfl := hvalue .nothing hlook
    exact ⟨p, e, entry, c, m', hp, hreach, he, hr, hlook, hcontext, ht⟩

/-! ### How look-ups fail -/

/-- Wherever a run has come to, what the next command looks up fails only for a position that is not
there, for a text between the brackets that is no number, and for want of a record of who wrote a
reserved variable; where such a record is asked for it always fails. -/
theorem fault_of_reachable (hp : (Script.compile settings script log).1 = .ok p) (h : Reachable p e)
    (he : p.commands[e.next]? = some entry) (hr : Resolves e entry v k inner r) {m : Memory}
    (hm : e.memory.Looked m) :
    ∃ c, Script.contextOf settings script log k = some c ∧
      (∀ {g m'}, (v.look r).run m = (.error g, m') →
        PositionFault g ∨
        ((g.kind = .format ∨ g.kind = .overflow) ∧ ∃ name ∈ r.indexNames,
          (c.inside inner).isLoop name = false ∧ (c.inside inner).typeOf name = .ok .string) ∨
        g.kind = .undefined ∧ r.Unrecorded) ∧
      (r.Unrecorded → ∃ g m', (v.look r).run m = (.error g, m') ∧ g.kind = .undefined) := by
  obtain ⟨c, t, hcontext, ht, hextends⟩ := h.resolves_typed hp he hr
  have hfits := hm.fits (h.holds hp).memory
  have ht' := hextends.referenceType ht
  refine ⟨c, hcontext, fun {g m'} hlook => ?_, fun hunrecorded => ?_⟩
  · obtain ⟨-, hfault⟩ := (Viewpoint.stays_look r).of_error hfits hlook
    cases hfault with
    | position hposition => exact .inl hposition
    | @text name hkind hname hl htype =>
      refine .inr (.inl ⟨hkind, name, hname, hextends.isLoop name ▸ hl, ?_⟩)
      obtain ⟨t', hname', -⟩ :=
        (Context.referenceType_ok.mp ht).1 name hname (hextends.isLoop name ▸ hl)
      rw [hname', Except.ok.inj ((hextends.typeOf hname').symm.trans htype)]
    | @unstamped view hkind hview hmeta hreserved =>
      exact .inr (.inr ⟨hkind, hreserved, view, hview, hmeta⟩)
    | untyped _ hnone => exact absurd ht' (hnone t)
  · obtain ⟨view, hview, hmeta⟩ := hunrecorded.2
    obtain ⟨g, hlook, hkind⟩ := Viewpoint.look_unrecorded hunrecorded
      (Context.isLoop_of_metadata ht' hview hmeta) hfits
    exact ⟨g, m, hlook, hkind⟩

def failsWith (kind : FaultKind) : Checked Value → Bool
  | .ok _ => false
  | .error g => g.kind == kind

/-- A script that reads an array which has no entries. -/
def beyond : String := "ALLOCATE GLOBAL StrArray a\nPRINT $a[0]"

theorem fault_of_reachable_beyond : ∃ (p : Program) (e : Engine) (entry : Entry) (v : Viewpoint)
    (r : Reference) (g : Fault) (m' : Memory), (Script.compile {} beyond).1 = .ok p ∧
    Reachable p e ∧ p.commands[e.next]? = some entry ∧ Resolves e entry v e.next [] r ∧
    (v.look r).run e.memory = (.error g, m') ∧ PositionFault g := by
  obtain ⟨p, e, entry, hp, hreach, he, hr, h⟩ := exists_of_looksUp beyond 1
    ⟨"a", some (.single (.position 0)), none⟩ (failsWith .runtime) (by decide +kernel)
  rcases hlook : (e.viewpoint.look _).run e.memory with ⟨g | w, m'⟩ <;> rw [hlook] at h
  · have hkind : g.kind = .runtime := eq_of_beq h
    obtain ⟨c, -, hfault, -⟩ := fault_of_reachable hp hreach he hr .nothing
    refine ⟨p, e, entry, _, _, g, m', hp, hreach, he, hr, hlook, ?_⟩
    rcases hfault hlook with hposition | ⟨hformat | hoverflow, -⟩ | ⟨hundefined, -⟩
    · exact hposition
    · cases hkind.symm.trans hformat
    · cases hkind.symm.trans hoverflow
    · cases hkind.symm.trans hundefined
  · cases h

/-- Nobody can be asked who wrote what was read from a file, though the compiler lets a script
ask. -/
theorem undefined_writer_of_response : ∃ (p : Program) (e : Engine) (entry : Entry) (g : Fault)
    (m' : Memory), (Script.compile {} "PRINT $RESPONSE.WRITER").1 = .ok p ∧ Reachable p e ∧
    p.commands[e.next]? = some entry ∧
    Resolves e entry e.viewpoint e.next [] ⟨"RESPONSE", none, some .writer⟩ ∧
    (e.viewpoint.look ⟨"RESPONSE", none, some .writer⟩).run e.memory = (.error g, m') ∧
    g.kind = .undefined := by
  obtain ⟨p, e, entry, hp, hreach, he, hr, h⟩ := exists_of_looksUp
    "PRINT $RESPONSE.WRITER" 0 ⟨"RESPONSE", none, some .writer⟩ (failsWith .undefined)
    (by decide +kernel)
  rcases hlook : (e.viewpoint.look _).run e.memory with ⟨g | w, m'⟩ <;> rw [hlook] at h
  · exact ⟨p, e, entry, g, m', hp, hreach, he, hr, hlook, eq_of_beq h⟩
  · cases h

end Engine

end CommandScript
