import CommandScript.Proofs.Assembly.Finish
import CommandScript.Proofs.Declarations.Change

/-!
# Scripts that compile

What both walks did over a script that compiles: `exists_compiles` gives the state that the first
walk ended in and the one that the second walk had come to before it joined the calls. The program
is nested.
-/

namespace CommandScript.Script

/-- Where the first walk begins. -/
def beforeFirst (settings : Settings) (log : Log) : Declarations where
  memory := { store := Store.empty settings.randomMax, log := log.withMask settings.mask }
  findings := { collecting := false }

/-- Where the second walk begins. -/
def beforeSecond (settings : Settings) (script : String) (log : Log) : Assembly :=
  let d := ((Declarations.walk (lines script)).run (beforeFirst settings log)).2
  { memory := d.memory, findings := d.findings, subroutines := d.subroutines }

/-- The subroutines that the first walk over a script declares. -/
def declaredSubs (settings : Settings) (script : String) (log : Log) : SubroutineTable :=
  ((Declarations.walk (lines script)).run (beforeFirst settings log)).2.subroutines

/-- The walks over a script gave a program: the first one came to `d` and the second one to `a`
before the end of the script. -/
structure Compiles (settings : Settings) (script : String) (log : Log) (p : Program)
    (d : Declarations) (a : Assembly) : Prop where
  declares : Declarations.Walks (beforeFirst settings log) (lines script) d
  ends : Declarations.Ends d
  declared : declaredSubs settings script log = d.subroutines
  walks : ∃ m found, m.store = d.memory.store ∧ Assembly.Walks
    { memory := m, findings := found, subroutines := d.subroutines } (lines script) a
  finishes : ∃ a', Assembly.Finishes a (lines script) a' ∧ p = programOf d a'

variable {settings : Settings} {script : String} {log : Log} {p : Program}

/-- A script becomes a program if both walks get through it. -/
theorem compile_ok : (compile settings script log).1 = .ok p ↔ ∃ d a,
    Gives (Declarations.walk (lines script)) (beforeFirst settings log) () d ∧
    Gives (Assembly.walk (lines script))
      { memory := d.memory, findings := d.findings, subroutines := d.subroutines } () a ∧
    p = programOf d a := by
  simp only [compile, walks, Checked.map_ok]
  constructor
  · rintro ⟨c, hc, rfl⟩
    split at hc
    · cases hc
    · rename_i d hfirst
      split at hc
      · cases hc
      · rename_i a hsecond
        cases hc
        exact ⟨d, a, hfirst, hsecond, rfl⟩
  · rintro ⟨d, a, hfirst, hsecond, rfl⟩
    unfold Gives beforeFirst at hfirst
    rw [hfirst]
    dsimp only
    rw [show (Assembly.walk (lines script)).run _ = (.ok (), a) from hsecond]
    exact ⟨_, rfl, rfl⟩

theorem exists_compiles_gives (h : (compile settings script log).1 = .ok p) :
    ∃ d a, Compiles settings script log p d a ∧
      (beforeSecond settings script log).findings.collecting = false ∧
      Gives (forIn (lines script) PUnit.unit fun l _ => do
        Assembly.line l
        pure (ForInStep.yield PUnit.unit)) (beforeSecond settings script log) PUnit.unit a := by
  obtain ⟨d', a', hfirst, hsecond, rfl⟩ := compile_ok.mp h
  obtain ⟨d, m, hwalk, hends, hstore, rfl⟩ := Declarations.walk_gives rfl hfirst
  have hcollecting : d.findings.collecting = false := by
    rw [hwalk.findings_eq]
    rfl
  obtain ⟨a, hgives, hwalks, hfinish⟩ := Assembly.walk_gives hcollecting hsecond
  unfold Gives at hfirst
  refine ⟨d, a, ⟨hwalk, hends, ?_, ⟨m, d.findings, hstore, hwalks⟩, ⟨a', hfinish, rfl⟩⟩, ?_⟩
  · rw [declaredSubs, hfirst]
  · rw [beforeSecond, hfirst]
    exact ⟨hcollecting, hgives⟩

theorem exists_compiles (h : (compile settings script log).1 = .ok p) :
    ∃ d a, Compiles settings script log p d a := by
  obtain ⟨d, a, h, -⟩ := exists_compiles_gives h
  exact ⟨d, a, h⟩

/-- The first walk knows nothing of commands. -/
theorem Declarations.Walks.fresh {ls : List Line} {d d' : Declarations}
    (h : Declarations.Walks d ls d') (hf : Assembly.Fresh d.subroutines) :
    Assembly.Fresh d'.subroutines := by
  induction h with
  | nil => exact hf
  | cons ht _ ih =>
    refine ih ?_
    cases ht with
    | inside _ h =>
      rw [h.subroutines]
      exact hf
    | silent => exact hf
    | statement _ _ h =>
      cases h with
      | sub _ _ hd =>
        obtain ⟨-, rfl⟩ := SubroutineTable.declare_ok hd
        intro s hs
        rcases SubroutineTable.mem_insert.mp hs with rfl | hs
        · exact ⟨rfl, rfl, rfl⟩
        · exact hf s hs
      | endSub =>
        intro s hs
        obtain ⟨s', hs', rfl | rfl⟩ := SubroutineTable.mem_update hs
        · exact hf _ hs'
        · exact hf s' hs'
      | _ => exact hf

namespace Compiles

variable {d : Declarations} {a : Assembly}

theorem coherent (h : Compiles settings script log p d a) : a.Coherent := by
  obtain ⟨m, found, -, hw⟩ := h.walks
  exact (Assembly.Coherent.start (h.declares.fresh fun s hs => by cases hs)).walks hw

theorem isNested (h : Compiles settings script log p d a) : p.IsNested := by
  obtain ⟨a', hf, rfl⟩ := h.finishes
  exact hf.isNested h.coherent d

end Compiles

/-- The program of a script is nested. -/
theorem isNested_of_compile (h : (compile settings script log).1 = .ok p) : p.IsNested := by
  obtain ⟨d, a, h⟩ := exists_compiles h
  exact h.isNested

/-- A script with every kind of block, one inside another. -/
def blocks : String :=
  "STARTUP\n-DEBUG 1\nENDSTARTUP\nALLOCATE GLOBAL Integer n\nFOR i = 1 ; <= 3\nIF $i == 2\nNEXT\n" ++
  "ELSE\nFOR j = $i ; < 5\nBREAK\nENDFOR\nENDIF\nENDFOR\nGOSUB a\nENDMAIN\nSUB a\n" ++
  "ALLOCATE LOCAL String s\nIF TRUE\nRETURN\nENDIF\nENDSUB\n"

theorem blocks_compile : ∃ p, (compile {} blocks).1 = .ok p := by
  have h : (compile {} blocks).1.toOption.isSome = true := by decide +kernel
  cases hp : (compile {} blocks).1 with
  | ok p => exact ⟨p, rfl⟩
  | error f =>
    rw [hp] at h
    cases h

end CommandScript.Script
