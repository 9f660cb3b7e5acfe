import CommandScript.Proofs.Assembly.Recording
import CommandScript.Script.Compile

/-!
# Checking agrees with compiling

A check finds nothing in a script exactly where the script compiles, and what it finds first is what
the compilation stops at. The two walks are compared one after the other, each by its `Tracks`.
-/

namespace CommandScript.Script

open Recorder

/-- Where the second walk begins after the first one. -/
def Declarations.assembly (d : Declarations) : Assembly where
  memory := d.memory
  findings := d.findings
  subroutines := d.subroutines

/-- Both walks, the first of them from `d`. -/
def walksFrom (lines : List Line) (d : Declarations) : Checked Compiled × Log :=
  match (Declarations.walk lines).run d with
  | (.error f, d) => (.error f, d.memory.log)
  | (.ok (), d) =>
    match (Assembly.walk lines).run d.assembly with
    | (.error f, a) => (.error f, a.memory.log)
    | (.ok (), a) => (.ok ⟨programOf d a, a.findings⟩, a.memory.log)

theorem walks_eq (settings : Settings) (collecting : Bool) (script : String) (log : Log) :
    walks settings collecting script log = walksFrom (lines script)
      { memory := { store := Store.empty settings.randomMax, log := log.withMask settings.mask }
        findings := { collecting } } := rfl

/-- What both walks have found when they went on to the end. -/
structure Compiled.Found (base : List String) (first : List Fault) (c : Compiled) (log : Log) :
    Prop where
  found : first <+: c.findings.faults
  distinct : (c.findings.faults.map Fault.message).Nodup
  logged : log.messages .error = base ++ c.findings.faults.map Fault.message

variable {base : List String} {first : List Fault} {d e : Declarations}

theorem Recorder.Going.assembly (h : Going base first d) : Going base first d.assembly :=
  ⟨h.collecting, h.found, h.distinct, h.logged⟩

theorem Recorder.Blind.assembly (h : Twin base d e) : Twin base d.assembly e.assembly := by
  obtain ⟨hf, rfl, he⟩ := h
  exact ⟨hf, rfl, he⟩

theorem Recorder.Going.compiled {a : Assembly} (h : Going base first a) (d : Declarations) :
    Compiled.Found base first ⟨programOf d a, a.findings⟩ a.memory.log :=
  ⟨h.found, h.distinct, h.logged⟩

/-- The walks that go on compile whatever the ones that stop do, with the fault of these in front or
with no fault at all. -/
theorem walksFrom_tracks (lines : List Line) (h : Twin base d e) :
    ∃ c log, walksFrom lines e = (.ok c, log) ∧ match (walksFrom lines d).1 with
      | .ok c' => c.Found base [] log ∧ c.findings.faults = [] ∧ c.program.size = c'.program.size
      | .error f => c.Found base [f] log := by
  have hfirst := (Declarations.walk_tracks lines).leads d e h
  unfold walksFrom
  rcases hd : (Declarations.walk lines).run d with ⟨f | u, d'⟩ <;> rw [hd] at hfirst
  · obtain ⟨_, e', he, hgoing⟩ := hfirst
    have hsecond := (Assembly.walk_tracks lines).goes [f] _ hgoing.assembly
    rw [he]
    dsimp only
    rcases hb : (Assembly.walk lines).run e'.assembly with ⟨f' | u', b⟩ <;> rw [hb] at hsecond
    · exact hsecond.2.elim
    · exact ⟨_, _, rfl, hsecond.1.compiled e'⟩
  · obtain ⟨e', he, htwin⟩ := hfirst
    have hsecond := (Assembly.walk_tracks lines).leads _ _ htwin.assembly
    rw [he]
    dsimp only
    rcases ha : (Assembly.walk lines).run d'.assembly with ⟨f | u', a⟩ <;> rw [ha] at hsecond
    · obtain ⟨_, b, hb, hgoing⟩ := hsecond
      rw [hb]
      exact ⟨_, _, rfl, hgoing.compiled e'⟩
    · obtain ⟨b, hb, htwin'⟩ := hsecond
      rw [hb]
      refine ⟨_, _, rfl, htwin'.going.compiled e', ?_, ?_⟩
      · exact congrArg Findings.faults htwin'.found_eq'
      · rw [htwin'.eq_noted]
        rfl

/-- A script compiles exactly where a check of it finds nothing, and then the check counts the
commands of its program; else the fault of the compilation is the first one of the check. No two
faults of a check have the same text, and their texts are what it logs as errors. -/
theorem check_agrees (settings : Settings) (script : String) (log : Log) :
    let report := (check settings script log).1
    ((∃ p, (compile settings script log).1 = .ok p) ↔ report.faults = []) ∧
    (∀ p, (compile settings script log).1 = .ok p → report.commands = p.size) ∧
    (∀ f, (compile settings script log).1 = .error f → report.faults.head? = some f) ∧
    (report.faults.map Fault.message).Nodup ∧
    (check settings script log).2.messages .error =
      log.messages .error ++ report.faults.map Fault.message := by
  let fresh (collecting : Bool) : Declarations :=
    { memory := { store := Store.empty settings.randomMax, log := log.withMask settings.mask }
      findings := { collecting } }
  have hfresh : Twin (log.messages .error) (fresh false) (fresh true) := ⟨rfl, rfl, rfl⟩
  have h := walksFrom_tracks (lines script) hfresh
  rw [← walks_eq, ← walks_eq] at h
  obtain ⟨c, log', htrue, h⟩ := h
  unfold check compile
  rw [htrue]
  dsimp only
  rcases hw : walks settings false script log with ⟨f | c', log''⟩ <;> rw [hw] at h
  · obtain ⟨hfound, hdistinct, hlogged⟩ := h
    have hhead : c.findings.faults.head? = some f := by
      obtain ⟨rest, heq⟩ := hfound
      rw [← heq]
      rfl
    refine ⟨⟨fun ⟨p, hp⟩ => ?_, fun hnone => ?_⟩, fun p hp => ?_, fun g hg => ?_, hdistinct, hlogged⟩
    · cases hp
    · rw [hnone] at hhead
      cases hhead
    · cases hp
    · cases hg
      exact hhead
  · obtain ⟨⟨-, hdistinct, hlogged⟩, hnone, hsize⟩ := h
    refine ⟨⟨fun _ => hnone, fun _ => ⟨_, rfl⟩⟩, fun p hp => ?_, fun g hg => ?_, hdistinct, hlogged⟩
    · cases hp
      exact hsize
    · cases hg

end CommandScript.Script
