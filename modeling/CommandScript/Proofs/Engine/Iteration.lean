import CommandScript.Proofs.Engine.Pairing
import CommandScript.Proofs.Engine.Reachable
import CommandScript.Proofs.Numeral
import CommandScript.Proofs.Relation
import CommandScript.Proofs.Structure.Commands

/-!
# The iterations of a loop

A loop that is in progress goes through its body pass by pass. A pass leads from the beginning of the
body to a command that moves the loop on (`Advances`): `ENDFOR`, `NEXT`, `SKIP`, or `SKIPIF` with a
condition that holds. In between no command changes the loop variable (`InPass.holds`), since a program
holds no other way to move a loop on than to name it at its own depth of calls. So what an iteration does
to the loop is what its last command does (`PassEnds.again`, `PassEnds.leaves`, `PassEnds.overflows`,
`PassEnds.zero`).
-/

namespace CommandScript.Engine

/-- The loop is in progress at the depth of calls, and its variable holds `v`. -/
def HoldsLoop (e : Engine) (depth : Nat) (id : LoopId) (v : Int64) : Prop :=
  ⟨depth, id, v⟩ ∈ e.loops

/-- The engine when it takes up its next command. -/
def takenUp (e : Engine) : Engine := { e with skipBreakpoint := false }

theorem flow_takenUp (e : Engine) : e.takenUp.flow = e.flow := rfl

/-- The next command moves the loop on, if it stands in the subroutine that the loop runs in; `e'` is
the engine when it asks for the step. -/
inductive Advances (id : LoopId) (e : Engine) : Engine → Prop where
  | always {entry : Entry} : e.finished = false → e.program.commands[e.next]? = some entry →
      entry.command = .next id ∨ entry.command = .skip id ∨ entry.command = .endFor id →
      Advances id e e.takenUp
  | chosen {entry : Entry} {c : Condition} {e' : Engine} : e.finished = false →
      e.program.commands[e.next]? = some entry → entry.command = .skipIf id c →
      Gives (truth c) e.takenUp true e' → Advances id e e'

/-- The engine comes to `z` on the pass that begins at `x`: no command on the way failed, left the loop
or moved it on. -/
inductive InPass (depth : Nat) (id : LoopId) (x : Engine) : Engine → Prop where
  | start : InPass depth id x x
  | step {z z' : Engine} {v : Int64} : InPass depth id x z →
      (∀ y, z.depth = depth → ¬Advances id z y) → z.step = (.ok (), z') → z'.HoldsLoop depth id v →
      InPass depth id x z'

/-- The pass that begins at `x` ends at `y` with a command that moves the loop on. -/
structure PassEnds (depth : Nat) (id : LoopId) (x y y' : Engine) : Prop where
  inPass : InPass depth id x y
  depth_eq : y.depth = depth
  advances : Advances id y y'

/-- The loop whose `FOR` comes next at `e` enters its body for the `i`-th time at `x`, counted from
zero, and its variable holds `v`. -/
inductive Iterates (e : Engine) (loop : Loop) : Nat → Int64 → Engine → Prop where
  | first {v : Int64} {x : Engine} : e.step = (.ok (), x) → x.next = loop.bodyIndex →
      x.HoldsLoop e.depth loop.id v → Iterates e loop 0 v x
  | again {i : Nat} {v v' : Int64} {x y y' x' : Engine} : Iterates e loop i v x →
      PassEnds e.depth loop.id x y y' → y.step = (.ok (), x') → x'.next = loop.bodyIndex →
      x'.HoldsLoop e.depth loop.id v' → Iterates e loop (i + 1) v' x'

/-- The formula has the value where the engine stands. -/
def Yields (f : Formula) (n : Int64) (e : Engine) : Prop :=
  ∃ e', Gives (number f) e n e'

/-- The engine when a `FOR` asks for the start of its loop. -/
def cleared (e : Engine) (id : LoopId) : Engine :=
  { e.takenUp with loops := e.loops.filter fun l => !isRun e.depth id l }

/-- The loop is begun, its variable holding `v`. -/
def withLoop (e : Engine) (id : LoopId) (v : Int64) : Engine :=
  { e with loops := ⟨e.depth, id, v⟩ :: e.loops }

/-- The run of the loop at the depth of calls has the value; other runs are as they were. -/
def movedRun (depth : Nat) (id : LoopId) (v : Int64) (l : ActiveLoop) : ActiveLoop :=
  if isRun depth id l then { l with value := v } else l

/-- The variable of the loop is given the value. -/
def movedTo (e : Engine) (id : LoopId) (v : Int64) : Engine :=
  { e with loops := e.loops.map (movedRun e.depth id v) }

/-- Wherever the loop whose `FOR` comes next asks for its start, end and step, they are `s`, `t` and
`k`. -/
structure Keeps (e : Engine) (loop : Loop) (s t k : Int64) : Prop where
  start : Yields loop.start s (e.cleared loop.id)
  stop : ∀ e₁, Gives (number loop.start) (e.cleared loop.id) s e₁ →
    Yields loop.stop t (e₁.withLoop loop.id s)
  step : ∀ i v x y y', Iterates e loop i v x → PassEnds e.depth loop.id x y y' →
    Yields loop.step k y'
  stopAgain : ∀ i v x y y' y₁ v', Iterates e loop i v x → PassEnds e.depth loop.id x y y' →
    Gives (number loop.step) y' k y₁ → v'.toInt = v.toInt + k.toInt →
    Yields loop.stop t (y₁.movedTo loop.id v')

/-! ### Loops in progress are told apart by depth and loop -/

section Labels

variable {p : Program} {f : Flow}

theorem nodup_labels (hn : p.IsNested) (calls : List Frame) (k : Nat) :
    ((loopsOf (p.around k)).map (calls.length, ·) ++ p.loopsBelow calls).Nodup := by
  have hhere (d k : Nat) : ((loopsOf (p.around k)).map (d, ·)).Nodup :=
    (hn.nested.loopsOf_pairwise k).map _ fun id other hlt heq => by
      cases heq
      exact Nat.lt_irrefl _ hlt
  induction calls generalizing k with
  | nil => simpa [Program.loopsBelow] using hhere 0 k
  | cons frame calls ih =>
    refine List.nodup_append.mpr ⟨hhere _ k, ih frame.callIndex, ?_⟩
    rintro a ha b hb rfl
    obtain ⟨id, -, rfl⟩ := List.mem_map.mp ha
    have hlt : (frame :: calls).length < (frame :: calls).length :=
      Program.depth_lt_of_mem_loopsBelow hb
    exact Nat.lt_irrefl _ hlt

theorem eq_of_label {loops : List ActiveLoop} {l l' : ActiveLoop}
    (hnodup : (loops.map ActiveLoop.label).Nodup) (hl : l ∈ loops) (hl' : l' ∈ loops)
    (heq : l.label = l'.label) : l = l' := by
  induction loops with
  | nil => cases hl
  | cons first rest ih =>
    obtain ⟨hfirst, hrest⟩ := List.nodup_cons.mp hnodup
    rcases List.mem_cons.mp hl with rfl | hmem
    · rcases List.mem_cons.mp hl' with rfl | hmem'
      · rfl
      · exact absurd (heq ▸ List.mem_map_of_mem hmem') hfirst
    · rcases List.mem_cons.mp hl' with rfl | hmem'
      · exact absurd (heq ▸ List.mem_map_of_mem hmem) hfirst
      · exact ih hrest hmem hmem'

theorem Flow.Scoped.nodup (h : f.Scoped) (hn : f.program.IsNested) :
    (f.loops.map ActiveLoop.label).Nodup := by
  rw [h.loops]
  exact nodup_labels hn f.calls f.next

end Labels

/-! ### One command of a pass -/

section Step

variable {p : Program} {e e' : Engine} {depth : Nat} {id : LoopId} {v w : Int64}

theorem HoldsLoop.unique (h : Sound p e) (hn : p.IsNested) (hv : e.HoldsLoop depth id v)
    (hw : e.HoldsLoop depth id w) : v = w := by
  obtain ⟨rfl, h⟩ := h
  have hnodup := h.nodup hn
  exact congrArg ActiveLoop.value (eq_of_label hnodup hv hw rfl)

/-- A loop that is in progress where the next command stands is around it. -/
theorem HoldsLoop.mem_around (h : Sound p e) (hv : e.HoldsLoop e.depth id v) :
    id ∈ loopsOf (p.around e.next) := by
  obtain ⟨rfl, h⟩ := h
  have hmem := h.loops ▸ List.mem_map_of_mem (f := ActiveLoop.label) hv
  rcases List.mem_append.mp hmem with hmem | hmem
  · obtain ⟨other, hother, heq⟩ := List.mem_map.mp hmem
    cases heq
    exact hother
  · exact absurd (Program.depth_lt_of_mem_loopsBelow hmem) (Nat.lt_irrefl _)

/-- Only its own `FOR` and the commands that move a loop on give its variable a value. -/
theorem mem_of_effect {f f' : Flow} {entry : Entry} {m : Move} {l : ActiveLoop}
    (hx : Effect f entry m f')
    (hfor : entry.command ≠ .for_ l.id ∨ l.depth ≠ f.depth)
    (hmoves : goesOnWith? entry.command ≠ some l.id ∨ l.depth ≠ f.depth) (hl : l ∈ f'.loops) :
    l ∈ f.loops := by
  cases hx with
  | loopBegun hc =>
    rcases List.mem_cons.mp hl with rfl | hl
    · exact absurd rfl (hfor.resolve_left fun hne => hne hc)
    · exact (List.mem_filter.mp hl).1
  | loopPassed => exact (List.mem_filter.mp hl).1
  | loopAgain hc _ hr =>
    rw [hr.loops]
    have hlabel := isRun_iff.mp hr.run
    rcases List.mem_append.mp hl with hl | hl
    · exact List.mem_append_left _ hl
    · rcases List.mem_cons.mp hl with rfl | hl
      · obtain ⟨hdepth, hid⟩ := Prod.mk.inj hlabel
        rcases hmoves with hne | hne
        · exact absurd (hid ▸ hc) hne
        · exact absurd hdepth hne
      · exact List.mem_append_right _ (List.mem_cons_of_mem _ hl)
  | loopLeft _ _ hr =>
    rw [hr.loops]
    exact List.mem_append_right _ (List.mem_cons_of_mem _ hl)
  | return_ => exact (List.mem_filter.mp hl).1
  | _ => exact hl

theorem loops_finish (e : Engine) : (finish.run e).2.loops = e.loops :=
  congrArg Flow.loops (flow_finish e)

theorem loops_follow (m : Move) (e : Engine) : ((follow m).run e).2.loops = e.loops := by
  cases m with
  | exit => exact e.loops_finish
  | _ => rfl

/-- The loop that stands where the next command does is not begun by it. -/
theorem HoldsLoop.not_for (h : Sound p e) (hn : p.IsNested) (hv : e.HoldsLoop e.depth id v)
    {entry : Entry} (hentry : p.commands[e.next]? = some entry) : entry.command ≠ .for_ id := by
  intro hc
  have hindex : id.index = e.next :=
    hn.nested.opening_index (x := .loop id) (p.getElem?_entries e.next ▸ hentry)
      (by rw [Entry.opening?, hc])
  have hmem := hv.mem_around h
  rw [← hindex] at hmem
  exact hn.nested.not_mem_around_index (mem_loopsOf.mp hmem)

/-- A command that names the loop to go on with, and does not move it on, lets it be. -/
theorem loops_of_not_advances {entry : Entry} {m : Move} (hfinished : e.finished = false)
    (hentry : e.program.commands[e.next]? = some entry)
    (hc : goesOnWith? entry.command = some id) (hnot : ∀ y, ¬Advances id e y)
    (hx : Gives (execute entry) e.takenUp m e') : e'.loops = e.loops := by
  have always (hc : entry.command = .next id ∨ entry.command = .skip id ∨
      entry.command = .endFor id) : e'.loops = e.loops :=
    absurd (.always hfinished hentry hc) (hnot _)
  cases hcommand : entry.command <;> rw [hcommand] at hc <;> cases hc
  case next => exact always (.inl hcommand)
  case skip => exact always (.inr (.inl hcommand))
  case endFor => exact always (.inr (.inr hcommand))
  case skipIf c =>
    rw [execute, hcommand] at hx
    obtain ⟨b, e₁, hb, hx⟩ := gives_bind.mp hx
    cases b with
    | true => exact absurd (.chosen hfinished hentry hcommand hb) (hnot e₁)
    | false =>
      obtain ⟨-, rfl⟩ := gives_pure.mp hx
      exact congrArg Flow.loops ((plain_truth c).flow_eq hb)

/-- A command that neither leaves the loop nor moves it on does not change its variable. -/
theorem HoldsLoop.of_step (h : Sound p e) (hn : p.IsNested) (hv : e.HoldsLoop depth id v)
    (hnot : ∀ y, e.depth = depth → ¬Advances id e y) (hs : e.step = (.ok (), e'))
    (hw : e'.HoldsLoop depth id w) : w = v := by
  have hprogram := h.program
  refine HoldsLoop.unique h hn ?_ hv
  cases hfinished : e.finished with
  | true =>
    rw [step_of_finished hfinished] at hs
    cases hs
    exact hw
  | false =>
    rcases e.step_cases with hstep | ⟨-, hstep⟩ | ⟨entry, m, e₁, hentry, hx, hstep⟩ | ⟨_, _, _, -, hstep⟩ <;>
      have hbehind := congrArg Prod.snd (hs.symm.trans hstep) <;> dsimp only at hbehind
    · rwa [hbehind] at hw
    · rw [HoldsLoop, hbehind, loops_finish] at hw
      exact hw
    · rw [HoldsLoop, hbehind, loops_follow] at hw
      have heffect : Effect e.flow entry m e₁.flow :=
        effect_of_execute (e := e.takenUp) hx
      by_cases hhere : depth = e.depth
      · subst hhere
        by_cases hc : goesOnWith? entry.command = some id
        · rw [loops_of_not_advances hfinished hentry hc (fun y => hnot y rfl) hx] at hw
          exact hw
        · exact mem_of_effect heffect (.inl (hv.not_for h hn (hprogram ▸ hentry))) (.inl hc) hw
      · exact mem_of_effect heffect (.inr hhere) (.inr hhere) hw
    · cases hs.symm.trans hstep

/-! ### A pass -/

variable {x y y' z : Engine}

theorem InPass.reachable (hx : Reachable p x) (h : InPass depth id x z) : Reachable p z := by
  induction h with
  | start => exact hx
  | step _ _ hs _ ih => exact ih.step hs

/-- The loop variable keeps its value to the end of the pass. -/
theorem InPass.holds (hx : Reachable p x) (hn : p.IsNested) (hv : x.HoldsLoop depth id v)
    (h : InPass depth id x z) : z.HoldsLoop depth id v := by
  induction h with
  | start => exact hv
  | step hz hnot hs hw ih =>
    obtain rfl := ih.of_step ((hz.reachable hx).sound hn) hn hnot hs hw
    exact hw

end Step

theorem settle_of_gives {entry : Entry} {action : EngineM Move} {e e' : Engine} {m : Move}
    (h : Gives action e m e') : settle entry (action.run e) = (follow m).run e' := by
  rw [show action.run e = (.ok m, e') from h]
  rfl

theorem run_of_error {α : Type} {x : EngineM α} {e e' : Engine} {f : Fault}
    (h : x.run e = (.error f, e')) (g : α → EngineM Move) : (x >>= g).run e = (.error f, e') := by
  rw [run_bind, h]

/-- A fault ends the run. -/
theorem settle_of_error {entry : Entry} {action : EngineM Move} {e e' : Engine} {f : Fault}
    (h : action.run e = (.error f, e')) :
    ∃ g z, settle entry (action.run e) = (.error g, z) ∧ g.kind = f.kind ∧ z.state = .stopped := by
  rw [h]
  exact ⟨_, _, rfl, Fault.kind_atLine _ _ _, rfl⟩

/-! ### The beginning of a loop -/

section Begin

variable {p : Program} {e : Engine} {entry : Entry} {loop : Loop} {s t k : Int64}

/-- A loop is begun by looking at its start and then at its end. -/
theorem step_for (h : Sound p e) (hn : p.IsNested) (hgoing : e.finished = false)
    (hentry : p.commands[e.next]? = some entry) (hfor : entry.command = .for_ loop.id)
    (hloop : p.loops.loop loop.id = .ok loop) (hkeeps : e.Keeps loop s t k) :
    ∃ e₂ : Engine, e₂.flow = { e.flow with loops := ⟨e.depth, loop.id, s⟩ :: e.loops } ∧
      e.step = settle entry ((CommandScript.begun loop s t).run e₂) := by
  obtain ⟨rfl, h⟩ := h
  have hindex : loop.id.index = e.next :=
    hn.nested.opening_index (x := .loop loop.id) (e.program.getElem?_entries e.next ▸ hentry)
      (by rw [Entry.opening?, hfor])
  have hfilter : (e.flow.loops.filter fun l => !isRun e.flow.depth loop.id l) = e.flow.loops :=
    h.filter_loops hn hindex
  obtain ⟨e₁, hstart⟩ := hkeeps.start
  obtain ⟨e₂, hstop⟩ := hkeeps.stop e₁ hstart
  have hcleared : e.cleared loop.id = e.takenUp := congrArg (fun l => { e.takenUp with loops := l }) hfilter
  rw [hcleared] at hstart
  have hflow : e₁.flow = e.flow :=
    ((plain_number loop.start).flow_eq hstart).trans (flow_takenUp e)
  have hwith : e₁.withLoop loop.id s = { e₁ with loops := ⟨e.depth, loop.id, s⟩ :: e.loops } :=
    congrArg (fun f : Flow => { e₁ with loops := ⟨f.depth, loop.id, s⟩ :: f.loops }) hflow
  rw [hwith] at hstop
  refine ⟨e₂, ?_, ?_⟩
  · refine ((plain_number loop.stop).flow_eq hstop).trans ?_
    exact congrArg (fun f : Flow => { f with loops := ⟨e.depth, loop.id, s⟩ :: e.loops }) hflow
  · have hformulas : Gives (formulas loop.id) e.takenUp loop e.takenUp := by
      unfold Gives formulas
      rw [run_of_gives (gives_get.mpr ⟨rfl, rfl⟩)]
      exact gives_lift_of hloop
    rw [step_eq_settle hgoing hentry, execute, hfor]
    refine congrArg (settle entry) ?_
    refine (run_beginLoop (e := e.takenUp) hloop hfilter (flow_takenUp e)).trans ?_
    rw [run_of_gives hformulas, run_of_gives hstart, run_of_gives (gives_modify_self _ _)]
    exact run_of_gives hstop

/-- A loop whose test holds is entered. -/
theorem step_for_enters (h : Sound p e) (hn : p.IsNested) (hgoing : e.finished = false)
    (hentry : p.commands[e.next]? = some entry) (hfor : entry.command = .for_ loop.id)
    (hloop : p.loops.loop loop.id = .ok loop) (hkeeps : e.Keeps loop s t k)
    (htest : loop.test.Between s.toInt t.toInt) :
    ∃ x : Engine, e.step = (.ok (), x) ∧
      x.flow = { e.flow with next := e.next + 1, loops := ⟨e.depth, loop.id, s⟩ :: e.loops } := by
  obtain ⟨e₂, hflow, hstep⟩ := step_for h hn hgoing hentry hfor hloop hkeeps
  obtain ⟨e₃, hgives, hflow', -⟩ := leads_begunTrue (Relation.holds_compare.mpr htest) e₂ hflow
  refine ⟨{ e₃ with next := e₃.next + 1 }, hstep.trans (settle_of_gives hgives), ?_⟩
  exact congrArg (fun f : Flow => { f with next := f.next + 1 }) hflow'

/-- A loop whose test does not hold is passed over. -/
theorem step_for_passes (h : Sound p e) (hn : p.IsNested) (hgoing : e.finished = false)
    (hentry : p.commands[e.next]? = some entry) (hfor : entry.command = .for_ loop.id)
    (hloop : p.loops.loop loop.id = .ok loop) (hkeeps : e.Keeps loop s t k)
    (htest : ¬loop.test.Between s.toInt t.toInt) {j : Nat} (hexit : loop.exitIndex = .ok j) :
    ∃ x : Engine, e.step = (.ok (), x) ∧ x.flow = { e.flow with next := j } := by
  obtain ⟨e₂, hflow, hstep⟩ := step_for h hn hgoing hentry hfor hloop hkeeps
  obtain ⟨e₃, hgives, hflow', -⟩ :=
    leads_begunFalse (mt Relation.holds_compare.mp htest) hexit e₂ hflow
  refine ⟨{ e₃ with next := j }, hstep.trans (settle_of_gives hgives), ?_⟩
  exact congrArg (fun f : Flow => { f with next := j }) hflow'

end Begin

/-! ### The end of a pass -/

section Advance

variable {p : Program} {y y' y₁ : Engine} {loop : Loop} {v v' t k : Int64} {before : List ActiveLoop}

theorem Advances.exists_step {id : LoopId} (h : Advances id y y') :
    ∃ entry : Entry, y.program.commands[y.next]? = some entry ∧
      goesOnWith? entry.command = some id ∧ y'.flow = y.flow ∧
      y.step = settle entry ((advanceLoop id).run y') := by
  cases h with
  | always hgoing hentry hc =>
    rename_i entry
    refine ⟨entry, hentry, ?_, flow_takenUp y, ?_⟩
    · rcases hc with hc | hc | hc <;> rw [hc] <;> rfl
    · rw [step_eq_settle hgoing hentry, execute]
      rcases hc with hc | hc | hc <;> rw [hc] <;> rfl
  | chosen hgoing hentry hc htruth =>
    rename_i entry c
    refine ⟨entry, hentry, by rw [hc]; rfl,
      ((plain_truth c).flow_eq htruth).trans (flow_takenUp y), ?_⟩
    rw [step_eq_settle hgoing hentry, execute, hc]
    exact congrArg (settle entry) (run_of_gives htruth)

/-- The loop that is moved on is the innermost one, and no other run of it is in progress at its
depth. -/
theorem HoldsLoop.exists_before (h : Sound p y) (hn : p.IsNested) {entry : Entry} {id : LoopId}
    (hentry : y.program.commands[y.next]? = some entry) (hc : goesOnWith? entry.command = some id)
    (hv : y.HoldsLoop y.depth id v) :
    ∃ before, y.loops = ⟨y.depth, id, v⟩ :: before ∧
      ∀ l ∈ before, isRun y.depth id l = false := by
  obtain ⟨rfl, h⟩ := h
  have hfits := hn.nested.fits (y.program.getElem?_entries y.next ▸ hentry)
  obtain ⟨rest, hrest⟩ := List.head?_eq_some_iff.mp (head_loops_of_fits hfits (.inl hc))
  have hlabels : y.loops.map ActiveLoop.label = (y.depth, id) ::
      (rest.map (y.depth, ·) ++ y.program.loopsBelow y.calls) := by
    refine Eq.trans h.loops ?_
    rw [show loopsOf (y.flow.program.around y.flow.next) = id :: rest from hrest]
    rfl
  have hnodup := h.nodup hn
  obtain ⟨l, before, hloops, hl, -⟩ := List.map_eq_cons_iff.mp hlabels
  obtain rfl : ⟨y.depth, id, v⟩ = l :=
    eq_of_label hnodup hv (show l ∈ y.loops from hloops ▸ List.mem_cons_self) hl.symm
  refine ⟨before, hloops, fun l hmem => ?_⟩
  rw [Bool.eq_false_iff, Ne, isRun_iff]
  intro hlabel
  rw [show y.flow.loops = ⟨y.depth, id, v⟩ :: before from hloops, List.map_cons,
    List.nodup_cons] at hnodup
  exact hnodup.1 (List.mem_map.mpr ⟨l, hmem, hlabel⟩)

/-- What the end of a pass does: the step is looked at first. -/
theorem PassEnds.step_eq {x : Engine} {id : LoopId} {depth : Nat} (hy : PassEnds depth id x y y')
    (h : Sound p y) (hn : p.IsNested) (hloop : p.loops.loop id = .ok loop)
    (hv : y.HoldsLoop depth id v) :
    ∃ (entry : Entry) (before : List ActiveLoop), y'.flow = y.flow ∧
      y.loops = ⟨y.depth, id, v⟩ :: before ∧ (∀ l ∈ before, isRun y.depth id l = false) ∧
      y.step = settle entry ((advanced id loop v >>= fun v => do
        modify fun e => { e with loops := ⟨y.depth, id, v⟩ :: before }
        turned loop before v (← number loop.stop)).run y') := by
  obtain ⟨-, rfl, hadvances⟩ := hy
  obtain ⟨entry, hentry, hc, hflow, hstep⟩ := hadvances.exists_step
  obtain ⟨before, hloops, hbefore⟩ := hv.exists_before h hn hentry hc
  have hloop : y.flow.program.loops.loop id = .ok loop := by
    rw [← hloop]
    exact congrArg (fun p : Program => p.loops.loop id) h.program
  refine ⟨entry, before, hflow, hloops, hbefore, hstep.trans (congrArg (settle entry) ?_)⟩
  exact @run_advanceLoop y.flow y' id loop v before hloops hloop hflow

section Outcomes

variable {x : Engine} {depth : Nat} (hy : PassEnds depth loop.id x y y') (h : Sound p y)
  (hn : p.IsNested) (hloop : p.loops.loop loop.id = .ok loop) (hv : y.HoldsLoop depth loop.id v)

include hy h hn hloop hv

/-- A step of zero is a fault. -/
theorem PassEnds.zero (hstep : Yields loop.step 0 y') :
    ∃ g z, y.step = (.error g, z) ∧ g.kind = .runtime ∧ z.state = .stopped := by
  obtain ⟨entry, before, -, -, -, hy⟩ := hy.step_eq h hn hloop hv
  obtain ⟨y₁, hstep⟩ := hstep
  have hadvanced : (advanced loop.id loop v).run y' =
      (.error (.cause .runtime s!"loop {loop.id.name} has a zero step"), y₁) := by
    rw [advanced, run_of_gives hstep]
    rfl
  rw [hy]
  exact settle_of_error (run_of_error hadvanced _)

/-- A value outside the range is a fault. -/
theorem PassEnds.overflows (hstep : Yields loop.step k y') (hzero : k ≠ 0)
    (hover : int64? (v.toInt + k.toInt) = none) :
    ∃ g z, y.step = (.error g, z) ∧ g.kind = .range ∧ z.state = .stopped := by
  obtain ⟨entry, before, -, -, -, hy⟩ := hy.step_eq h hn hloop hv
  obtain ⟨y₁, hstep⟩ := hstep
  have hadvanced : (advanced loop.id loop v).run y' =
      (.error (.cause .range s!"loop {loop.id.name} overflowed"), y₁) := by
    rw [advanced, run_of_gives hstep, if_neg hzero, hover]
    rfl
  rw [hy]
  exact settle_of_error (run_of_error hadvanced _)

/-- With a value in the range the end of the loop is looked at. -/
theorem PassEnds.turned_eq (hstep : Gives (number loop.step) y' k y₁) (hzero : k ≠ 0)
    (hvalue : v'.toInt = v.toInt + k.toInt) (hstop : Yields loop.stop t (y₁.movedTo loop.id v')) :
    ∃ (entry : Entry) (before : List ActiveLoop) (y₂ : Engine),
      y.loops = ⟨y.depth, loop.id, v⟩ :: before ∧
      y₂.flow = { y.flow with loops := ⟨y.depth, loop.id, v'⟩ :: before } ∧
      y.step = settle entry ((turned loop before v' t).run y₂) := by
  obtain ⟨entry, before, hflow, hloops, hbefore, hy⟩ := hy.step_eq h hn hloop hv
  obtain ⟨y₂, hstop⟩ := hstop
  have hflow₁ : y₁.flow = y.flow := ((plain_number loop.step).flow_eq hstep).trans hflow
  have hmap : y.loops.map (movedRun y.depth loop.id v') = ⟨y.depth, loop.id, v'⟩ :: before := by
    have hfirst : movedRun y.depth loop.id v' ⟨y.depth, loop.id, v⟩ = ⟨y.depth, loop.id, v'⟩ :=
      if_pos (isRun_iff.mpr rfl)
    have hothers : ∀ l ∈ before, movedRun y.depth loop.id v' l = id l :=
      fun l hl => if_neg (Bool.eq_false_iff.mp (hbefore l hl))
    rw [hloops, List.map_cons, hfirst, List.map_congr_left hothers, List.map_id]
  have hmoved : y₁.movedTo loop.id v' = { y₁ with loops := ⟨y.depth, loop.id, v'⟩ :: before } := by
    rw [← hmap]
    exact congrArg
      (fun f : Flow => { y₁ with loops := f.loops.map (movedRun f.depth loop.id v') }) hflow₁
  have hadvanced : Gives (advanced loop.id loop v) y' v' y₁ := by
    unfold Gives
    rw [advanced, run_of_gives hstep, if_neg hzero, int64?_eq_some.mpr hvalue]
    rfl
  rw [hmoved] at hstop
  refine ⟨entry, before, y₂, hloops, ?_, hy.trans (congrArg (settle entry) ?_)⟩
  · refine ((plain_number loop.stop).flow_eq hstop).trans ?_
    exact congrArg (fun f : Flow => { f with loops := ⟨y.depth, loop.id, v'⟩ :: before }) hflow₁
  · rw [run_of_gives hadvanced, run_of_gives (gives_modify_self _ _)]
    exact run_of_gives hstop

/-- While its test holds the loop goes through its body once more. -/
theorem PassEnds.again (hstep : Gives (number loop.step) y' k y₁) (hzero : k ≠ 0)
    (hvalue : v'.toInt = v.toInt + k.toInt) (hstop : Yields loop.stop t (y₁.movedTo loop.id v'))
    (htest : loop.test.Between v'.toInt t.toInt) :
    ∃ z : Engine, y.step = (.ok (), z) ∧
      z.flow = { y.flow with
        next := loop.bodyIndex, loops := ⟨y.depth, loop.id, v'⟩ :: y.loops.tail } := by
  obtain ⟨entry, before, y₂, hloops, hflow, hy⟩ :=
    hy.turned_eq h hn hloop hv hstep hzero hvalue hstop
  obtain ⟨y₃, hgives, hflow', -⟩ := leads_turnedTrue (Relation.holds_compare.mpr htest) y₂ hflow
  refine ⟨{ y₃ with next := loop.bodyIndex }, hy.trans (settle_of_gives hgives), ?_⟩
  rw [hloops]
  exact congrArg (fun f : Flow => { f with next := loop.bodyIndex }) hflow'

/-- When its test fails the loop is left. -/
theorem PassEnds.leaves (hstep : Gives (number loop.step) y' k y₁) (hzero : k ≠ 0)
    (hvalue : v'.toInt = v.toInt + k.toInt) (hstop : Yields loop.stop t (y₁.movedTo loop.id v'))
    (htest : ¬loop.test.Between v'.toInt t.toInt) {j : Nat} (hexit : loop.exitIndex = .ok j) :
    ∃ z : Engine, y.step = (.ok (), z) ∧
      z.flow = { y.flow with next := j, loops := y.loops.tail } := by
  obtain ⟨entry, before, y₂, hloops, hflow, hy⟩ :=
    hy.turned_eq h hn hloop hv hstep hzero hvalue hstop
  obtain ⟨y₃, hgives, hflow', -⟩ :=
    leads_turnedFalse (mt Relation.holds_compare.mp htest) hexit y₂ hflow
  refine ⟨{ y₃ with next := j }, hy.trans (settle_of_gives hgives), ?_⟩
  rw [hloops]
  exact congrArg (fun f : Flow => { f with next := j }) hflow'

end Outcomes

end Advance

end CommandScript.Engine
