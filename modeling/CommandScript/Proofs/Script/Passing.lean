import CommandScript.Proofs.Assembly.Walk
import CommandScript.Proofs.Declarations.Complete
import CommandScript.Proofs.Script.Passes

/-!
# Scripts that both walks get through

At the end nothing may be open and every call must lead to a subroutine (`Assembly.Ready`). The second
walk succeeds if it passes over all lines and leaves the assembly ready.
-/

namespace CommandScript.Assembly

open Script

variable {a a' : Assembly} {lines : List Line}

/-- Nothing is open, and every call leads to a subroutine. -/
structure Ready (a : Assembly) : Prop where
  closed : Closed a
  joins : ∀ e ∈ a.commands.toList, Joins a.subroutines e

theorem gives_joined {e : Entry} (h : Joins a.subroutines e) :
    Gives (joined e) a (join a.subroutines e) a := by
  simp only [joined, gives_bind, gives_get]
  refine ⟨a, a, ⟨rfl, rfl⟩, ?_⟩
  cases hcmd : e.command
  case sub name last =>
    simp only [join, hcmd, gives_pure, and_self]
  case gosub name target =>
    obtain ⟨i, hi⟩ := Option.isSome_iff_exists.mp (h name target hcmd)
    simp only [join, hcmd, hi, Option.getD_some, gives_pure, and_self]
  all_goals simp only [join, hcmd, gives_pure, and_self]

theorem gives_mapM_joined {es : List Entry} (h : ∀ e ∈ es, Joins a.subroutines e) :
    Gives (es.mapM joined) a (es.map (join a.subroutines)) a := by
  induction es with
  | nil =>
    rw [List.mapM_nil]
    exact gives_pure.mpr ⟨rfl, rfl⟩
  | cons e es ih =>
    obtain ⟨he, hes⟩ := List.forall_mem_cons.mp h
    simp only [List.mapM_cons, gives_bind, gives_pure]
    exact ⟨_, a, gives_joined he, _, a, ih hes, rfl, rfl⟩

theorem gives_recordAt {i : Nat} {f : Fault} (h : a.commands[i]? = none) :
    Gives (recordAt i f) a () a := by
  simp only [recordAt, gives_bind, gives_get]
  refine ⟨a, a, ⟨rfl, rfl⟩, ?_⟩
  rw [h]
  exact gives_pure.mpr ⟨rfl, rfl⟩

theorem gives_forIn_recordAt {γ : Type} {l : List γ} {i : γ → Nat} {f : γ → Fault}
    (h : ∀ c ∈ l, a.commands[i c]? = none) :
    Gives (forIn l PUnit.unit fun c _ => do
      recordAt (i c) (f c)
      pure (ForInStep.yield PUnit.unit)) a PUnit.unit a := by
  induction l with
  | nil => exact gives_forIn_nil.mpr rfl
  | cons c l ih =>
    obtain ⟨hc, hl⟩ := List.forall_mem_cons.mp h
    exact gives_forIn_cons.mpr ⟨a, gives_recordAt hc, ih hl⟩

theorem gives_recordOpen (h : Closed a) : Gives (recordOpen lines) a () a := by
  simp only [recordOpen, gives_bind, gives_get]
  refine ⟨a, a, ⟨rfl, rfl⟩, ⟨⟩, a, gives_forIn_recordAt fun i hi => ?_, ⟨⟩, a,
    gives_forIn_recordAt fun id hid => ?_, ?_⟩
  · exact h.chains i (List.mem_reverse.mp hi)
  · exact h.loops id (List.mem_reverse.mp hid)
  · cases hcurrent : a.current with
    | none => exact gives_pure.mpr ⟨rfl, rfl⟩
    | some name =>
      dsimp only
      rw [h.current name hcurrent]
      exact gives_pure.mpr ⟨rfl, rfl⟩

/-- The second walk succeeds if it leaves the assembly ready. -/
theorem exists_gives_walk (hpass : PassesOver line a lines a') (h : Ready a') :
    ∃ b, Gives (walk lines) a () b := by
  simp only [walk, finish, gives_bind, gives_get, gives_modify, Array.mapM_eq_mapM_toList, gives_map]
  exact ⟨_, ⟨⟩, a', passesOver_iff.mp hpass, ⟨⟩, _, ⟨⟨⟩, a', gives_recordOpen h.closed, a', a',
    ⟨rfl, rfl⟩, _, a', ⟨_, gives_mapM_joined h.joins, rfl⟩, rfl⟩, rfl⟩

end CommandScript.Assembly

/-!
## Both walks

A script compiles if and only if the first walk passes over it and is complete, and the second walk
passes over it from there and leaves the assembly ready (`exists_compile_iff`).
-/

namespace CommandScript.Script

open Declarations (lineOrFault)

/-- What the second walk begins with behind the first one. -/
def Declarations.handed (d : Declarations) : Assembly :=
  { memory := d.reported.memory, findings := d.findings, subroutines := d.subroutines }

/-- Both walks get through the script: the first one comes to `d` and the second one to `a`. -/
structure Passing (settings : Settings) (script : String) (log : Log) (d : Declarations)
    (a : Assembly) : Prop where
  declares : PassesOver lineOrFault (beforeFirst settings log) (lines script) d
  complete : d.Complete
  assembles : PassesOver Assembly.line d.handed (lines script) a
  ready : a.Ready

variable {settings : Settings} {script : String} {log : Log} {p : Program} {d : Declarations}
  {a : Assembly}

theorem Passing.collecting (h : Passing settings script log d a) :
    d.findings.collecting = false := by
  rw [(Declarations.walks_of_passesOver rfl h.declares).findings_eq]
  rfl

theorem distinct_beforeFirst : Distinct (beforeFirst settings log).subroutines :=
  List.Pairwise.nil

/-- Both walks get through a script that compiles. -/
theorem exists_passing (h : (compile settings script log).1 = .ok p) :
    ∃ d a, Passing settings script log d a ∧
      ∃ a', Assembly.Finishes a (lines script) a' ∧ p = programOf d a' := by
  obtain ⟨d', a', hfirst, hsecond, rfl⟩ := compile_ok.mp h
  obtain ⟨d, hpass, hcomplete, rfl⟩ := (Declarations.gives_walk rfl distinct_beforeFirst).mp hfirst
  have hcollecting : d.findings.collecting = false := by
    rw [(Declarations.walks_of_passesOver rfl hpass).findings_eq]
    rfl
  obtain ⟨a, hgives, hwalks, hfinish⟩ := Assembly.walk_gives hcollecting hsecond
  exact ⟨d, a, ⟨hpass, hcomplete, passesOver_iff.mpr hgives, hfinish.closed, hfinish.joins⟩,
    a', hfinish, rfl⟩

/-- A script compiles if both walks get through it. -/
theorem Passing.exists_compile (h : Passing settings script log d a) :
    ∃ p, (compile settings script log).1 = .ok p := by
  obtain ⟨b, hsecond⟩ := Assembly.exists_gives_walk h.assembles h.ready
  have hfirst := (Declarations.gives_walk rfl distinct_beforeFirst).mpr
    ⟨d, h.declares, h.complete, rfl⟩
  exact ⟨_, compile_ok.mpr ⟨_, b, hfirst, hsecond, rfl⟩⟩

end CommandScript.Script
