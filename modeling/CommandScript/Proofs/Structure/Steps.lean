import CommandScript.Proofs.Engine.Scope
import CommandScript.Proofs.Structure.Course

/-!
# Steps taken together

A course of the engine is fixed while the tree is executed. In front of every command the engine
`Arrives` there, in the middle of one it is `Midway`, and what the execution does next the engine does
as well: one rule for each thing that an execution consists of.
-/

namespace CommandScript

open Engine

/-- What an execution gives meets `Q`, and if it stops, that meets `E`. -/
def Plays {α : Type} (x : Structured α) (r : Progress) (Q : α → Progress → Prop)
    (E : Stop → Progress → Prop) : Prop :=
  match x.run r with
  | (.ok a, r) => Q a r
  | (.error s, r) => E s r

section Plays

variable {α β : Type} {x : Structured α} {r : Progress} {Q Q' : α → Progress → Prop}
  {E E' : Stop → Progress → Prop}

theorem plays_bind {f : α → Structured β} {Q : β → Progress → Prop} :
    Plays (x >>= f) r Q E ↔ Plays x r (fun a r => Plays (f a) r Q E) E := by
  unfold Plays
  rw [run_bind]
  rcases x.run r with ⟨s | a, r⟩
  · exact Iff.rfl
  · exact Iff.rfl

theorem plays_tryCatch {h : Stop → Structured α} :
    Plays (tryCatch x h) r Q E ↔ Plays x r Q fun s r => Plays (h s) r Q E := by
  unfold Plays
  simp only [ExceptT.run, tryCatch, tryCatchThe, MonadExceptOf.tryCatch, ExceptT.tryCatch,
    ExceptT.mk, bind, StateT.bind]
  rcases x r with ⟨s | a, r⟩
  · exact Iff.rfl
  · exact Iff.rfl

theorem plays_pure {a : α} : Plays (pure a) r Q E ↔ Q a r := Iff.rfl

theorem Plays.mono (h : Plays x r Q E) (hQ : ∀ a r, Q a r → Q' a r) (hE : ∀ s r, E s r → E' s r) :
    Plays x r Q' E' := by
  unfold Plays at *
  rcases hx : x.run r with ⟨s | a, r'⟩
  · rw [hx] at h
    exact hE s r' h
  · rw [hx] at h
    exact hQ a r' h

/-- What was shown of a first part may be used for the parts behind it. -/
theorem Plays.bind {f : α → Structured β} {Q' : β → Progress → Prop} (h : Plays x r Q E)
    (hf : ∀ a r, Q a r → Plays (f a) r Q' E') (hE : ∀ s r, E s r → E' s r) :
    Plays (x >>= f) r Q' E' :=
  plays_bind.mpr (h.mono hf hE)

end Plays

/-- The ways to stop that no construct takes in end the course as the execution ends. -/
structure Course.Closes (c : Course) (E : Stop → Progress → Prop) : Prop where
  out : ∀ r : Progress, c = ⟨r.events, none, r.world.data⟩ → E .out r
  finished : ∀ r : Progress, c = ⟨r.events, none, r.world.data⟩ → E .finished r
  failed : ∀ (f : Fault) (r : Progress), c = ⟨r.events, some f, r.world.data⟩ → E (.failed f) r

/-- Commands see the same at the place and in the flow. -/
structure Place.Shows (place : Place) (flow : Flow) : Prop where
  calls : flow.calls = place.calls
  loops : ∃ below, flow.loops = place.loops ++ below ∧ ∀ l ∈ below, l.depth < place.depth

theorem Place.Shows.sameView {place : Place} {flow : Flow} (h : place.Shows flow) {e w : Engine}
    (he : e.flow = flow) (hd : e.data = w.data) : SameView e (place.view w) := by
  subst he
  have hcalls : e.calls = place.calls := h.calls
  obtain ⟨below, hloops, hbelow⟩ := h.loops
  have hloops : e.loops = place.loops ++ below := hloops
  refine ⟨hd, ?_, ?_⟩
  · simp only [viewpoint, Engine.owner, Place.view, hcalls]
  · funext name
    have hnone : (below.find? fun l => l.depth == place.depth && l.id.name == name) = none := by
      refine List.find?_eq_none.mpr fun l hl hm => ?_
      have hdepth := (Bool.and_eq_true _ _ ▸ hm).1
      exact Nat.ne_of_lt (hbelow l hl) (beq_iff_eq.mp hdepth)
    have hdepth : e.depth = place.depth := congrArg List.length hcalls
    show (e.loops.find? fun l => l.depth == e.depth && l.id.name == name).map _ =
      (place.loops.find? fun l => l.depth == place.depth && l.id.name == name).map _
    rw [hloops, hdepth, List.find?_append, hnone, Option.or_none]

section Midway

/-- The course goes on where the flow says. -/
def Arrives (c : Course) (r : Progress) (flow : Flow) : Prop :=
  ∃ e : Engine, e.flow = flow ∧ e.data = r.world.data ∧ c = e.course r.steps r.events

/-- The course goes on with an action that belongs to the command of `entry`. -/
def Midway (c : Course) (r : Progress) (flow : Flow) (entry : Entry) (action : EngineM Move) :
    Prop :=
  ∃ e : Engine, e.flow = flow ∧ e.data = r.world.data ∧
    c = resume entry r.steps r.events (action.run e)

/-- The course goes on with the command of `entry`, whose condition is not noted yet. -/
def Comes (c : Course) (r : Progress) (flow : Flow) (entry : Entry) : Prop :=
  ∃ e : Engine, e.flow = flow ∧ e.data = r.world.data ∧
    c = resume entry r.steps (r.events ++ e.verdict entry) ((execute entry).run e)

/-- In the flow the action gives `a` and leaves all data alone. -/
def Leads {α : Type} (x : EngineM α) (flow : Flow) (a : α) (flow' : Flow) : Prop :=
  ∀ e : Engine, e.flow = flow → ∃ e', Gives x e a e' ∧ e'.flow = flow' ∧ e'.data = e.data

variable {α : Type} {c : Course} {r : Progress} {flow flow' : Flow} {entry : Entry} {place : Place}
  {x : EngineM Move} {E : Stop → Progress → Prop}

theorem Midway.congr {y : EngineM Move} (h : Midway c r flow entry x)
    (hxy : ∀ e : Engine, e.flow = flow → x.run e = y.run e) : Midway c r flow entry y := by
  obtain ⟨e, hflow, hdata, hc⟩ := h
  exact ⟨e, hflow, hdata, hxy e hflow ▸ hc⟩

theorem Midway.leads {y : EngineM α} {g : α → EngineM Move} {a : α}
    (h : Midway c r flow entry (y >>= g)) (hy : Leads y flow a flow') :
    Midway c r flow' entry (g a) := by
  obtain ⟨e, hflow, hdata, hc⟩ := h
  obtain ⟨e', hgives, hflow', hdata'⟩ := hy e hflow
  refine ⟨e', hflow', hdata'.trans hdata, ?_⟩
  rw [hc, run_bind, hgives]

theorem Midway.arrives {m : Move} {j : Nat} (h : Midway c r flow entry x) (hx : Leads x flow m flow')
    (hj : m.target? flow'.next = some j) : Arrives c r { flow' with next := j } := by
  obtain ⟨e, hflow, hdata, hc⟩ := h
  obtain ⟨e', hgives, rfl, hdata'⟩ := hx e hflow
  rw [show x.run e = (.ok m, e') from hgives] at hc
  cases m with
  | next =>
    cases hj
    exact ⟨((follow .next).run e').2, rfl, hdata'.trans hdata, hc⟩
  | jump target =>
    cases hj
    exact ⟨((follow (.jump j)).run e').2, rfl, hdata'.trans hdata, hc⟩
  | exit => cases hj

theorem Comes.midway (h : Comes c r flow entry) (hnone : flow.conditionOf? entry = none) :
    Midway c r flow entry (execute entry) := by
  obtain ⟨e, rfl, hdata, hc⟩ := h
  have hverdict : e.verdict entry = [] := by rw [verdict, hnone]
  rw [hverdict, List.append_nil] at hc
  exact ⟨e, rfl, hdata, hc⟩

/-! ### Rules -/

theorem plays_reach (h : Arrives c r flow) (hfin : flow.finished = false)
    (he : flow.program.entries[flow.next]? = some entry) (hE : c.Closes E) :
    Plays (reach entry) r (fun _ r' => r'.steps + 1 = r.steps ∧ Comes c r' flow entry) E := by
  obtain ⟨e, rfl, hdata, hc⟩ := h
  obtain ⟨world, steps, events⟩ := r
  have hentry : e.program.commands[e.next]? = some entry := by
    rw [← Program.getElem?_entries]
    exact he
  cases steps with
  | zero =>
    refine hE.out ⟨world, 0, events⟩ ?_
    rw [hc, course, hdata]
  | succ n =>
    refine ⟨rfl, { e with skipBreakpoint := false }, rfl, hdata, ?_⟩
    have hverdict : e.verdict entry = ({ e with skipBreakpoint := false } : Engine).verdict entry :=
      verdict_congr rfl rfl
    rw [hc]
    refine (course_succ hfin hentry).trans ?_
    rw [hverdict]
    simp only [List.append_assoc, List.singleton_append]

theorem run_perform (entry : Entry) (place : Place) (y : EngineM α) (r : Progress) :
    (perform entry place y).run r = match y.run (place.view r.world) with
      | (.ok a, world) => (.ok a, { r with world })
      | (.error f, world) =>
        (.error (.failed (world.stopOn entry f).1), { r with world := (world.stopOn entry f).2 }) := by
  have hget : (get : Structured Progress).run r = (.ok r, r) := rfl
  rw [perform, run_bind, hget]
  dsimp only
  rcases y.run (place.view r.world) with ⟨f | a, world⟩
  · rfl
  · rfl

/-- What an action does in the flow, another one does at the place. -/
theorem plays_perform_of {x y : EngineM α} {g : α → EngineM Move}
    (h : Midway c r flow entry (x >>= g))
    (hxy : ∀ e w : Engine, e.flow = flow → e.data = w.data →
      (x.run e).1 = (y.run (place.view w)).1 ∧
        (x.run e).2.data = (y.run (place.view w)).2.data ∧ (x.run e).2.flow = flow')
    (hE : c.Closes E) :
    Plays (perform entry place y) r
      (fun a r' => r'.steps = r.steps ∧ Midway c r' flow' entry (g a)) E := by
  obtain ⟨e, hflow, hdata, hc⟩ := h
  obtain ⟨hr, hd, hf⟩ := hxy e r.world hflow hdata
  rw [run_bind] at hc
  unfold Plays
  rw [run_perform]
  rcases hx : x.run e with ⟨f | a, e'⟩ <;> rcases hy : y.run (place.view r.world) with ⟨f' | a', w⟩ <;>
    rw [hx, hy] at hr hd <;> cases hr
  · obtain ⟨hfault, hstopped⟩ := stopOn_congr hd entry f
    rw [hx] at hc
    refine hE.failed _ { r with world := (w.stopOn entry f).2 } ?_
    rw [← hfault, ← hstopped]
    exact hc
  · rw [hx] at hc hf
    exact ⟨rfl, e', hf, hd, hc⟩

theorem plays_perform {y : EngineM α} {g : α → EngineM Move}
    (h : Midway c r flow entry (y >>= g)) (hy : Plain y) (hs : place.Shows flow)
    (hE : c.Closes E) :
    Plays (perform entry place y) r
      (fun a r' => r'.steps = r.steps ∧ Midway c r' flow entry (g a)) E := by
  refine plays_perform_of h (fun e w hflow hdata => ?_) hE
  obtain ⟨hr, hd⟩ := hy.same e _ (hs.sameView hflow hdata)
  exact ⟨hr, hd, (hy.flow e).trans hflow⟩

theorem plays_judge {condition : Condition} {g : Bool → EngineM Move} (h : Comes c r flow entry)
    (hcond : flow.conditionOf? entry = some condition)
    (hrun : ∀ e : Engine, e.flow = flow → (execute entry).run e = (truth condition >>= g).run e)
    (hs : place.Shows flow) (hE : c.Closes E) :
    Plays (judge entry place condition) r
      (fun b r' => r'.steps = r.steps ∧ Midway c r' flow entry (g b)) E := by
  obtain ⟨e, hflow, hdata, hc⟩ := h
  obtain ⟨hr, hd⟩ := (plain_truth condition).same e _ (hs.sameView hflow hdata)
  have hf := (plain_truth condition).flow e
  rw [hrun e hflow, run_bind] at hc
  unfold Plays judge
  rw [run_bind, run_perform]
  rcases hx : (truth condition).run e with ⟨f | b, e'⟩ <;>
    rcases hy : (truth condition).run (place.view r.world) with ⟨f' | b', w⟩ <;>
    rw [hx, hy] at hr hd <;> cases hr
  · have hverdict : e.verdict entry = [] := by simp only [verdict, hflow, hcond, hx]
    obtain ⟨hfault, hstopped⟩ := stopOn_congr hd entry f
    rw [hx, hverdict, List.append_nil] at hc
    refine hE.failed _ { r with world := (w.stopOn entry f).2 } ?_
    rw [← hfault, ← hstopped]
    exact hc
  · have hverdict : e.verdict entry = [.evaluated entry.index b] := by
      simp only [verdict, hflow, hcond, hx]
    rw [hx, hverdict] at hc
    rw [hx] at hf
    exact ⟨rfl, e', hf.trans hflow, hd, hc⟩

theorem run_quit (index : Nat) (r : Progress) :
    (quit index).run r = match finish.run { r.world with next := index } with
      | (.ok (), world) => (.error .finished, { r with world })
      | (.error fault, world) => (.error (.failed fault), { r with world }) := by
  have hget (k : Progress → Structured Unit) : (get >>= k).run r = (k r).run r := rfl
  unfold quit
  rw [hget]
  rcases finish.run { r.world with next := index } with ⟨fault | u, world⟩ <;> rfl

/-- The engine ends the program as the tree does, or both fail at it. -/
theorem plays_quit_of {index : Nat} {e : Engine} {Q : Unit → Progress → Prop}
    (hdata : e.data = r.world.data) (hnext : e.next = index)
    (hc : c = onward r.steps r.events (finish.run e)) (hE : c.Closes E) :
    Plays (quit index) r Q E := by
  obtain ⟨hanswer, hleft⟩ := finish_congr (f := { r.world with next := index }) hdata hnext
  have hfinished := e.finished_finish
  unfold Plays
  rw [run_quit]
  rcases he : finish.run e with ⟨fault | u, after⟩ <;>
    rcases hw : finish.run { r.world with next := index } with ⟨fault' | u', world⟩ <;>
    rw [he, hw] at hanswer hleft <;> cases hanswer
  · refine hE.failed fault { r with world } ?_
    rw [hc, he, ← hleft]
    rfl
  · refine hE.finished { r with world } ?_
    rw [he] at hfinished
    rw [hc, he, ← hleft]
    exact course_of_finished hfinished

theorem plays_quit {index : Nat} {Q : Unit → Progress → Prop}
    (h : Midway c r flow entry (pure .exit)) (hindex : index = flow.next) (hE : c.Closes E) :
    Plays (quit index) r Q E := by
  obtain ⟨e, rfl, hdata, hc⟩ := h
  exact plays_quit_of hdata hindex.symm hc hE

/-- The end of the commands ends the program. -/
theorem plays_end {index : Nat} {Q : Unit → Progress → Prop} (h : Arrives c r flow)
    (hfin : flow.finished = false) (hend : flow.program.commands[flow.next]? = none)
    (hindex : index = flow.next) (hE : c.Closes E) : Plays (do spend; quit index) r Q E := by
  obtain ⟨e, rfl, hdata, hc⟩ := h
  obtain ⟨world, steps, events⟩ := r
  cases steps with
  | zero =>
    refine hE.out ⟨world, 0, events⟩ ?_
    rw [hc, course, hdata]
  | succ n =>
    exact plays_quit_of (r := ⟨world, n, events⟩) hdata hindex.symm
      (hc.trans (course_succ_of_none hfin hend)) hE

end Midway

end CommandScript
