import CommandScript.Proofs.Engine.Visits
import CommandScript.Proofs.Script.Check
import CommandScript.Proofs.Script.Placed
import CommandScript.Proofs.Unplaced.Execution

/-!
# Faults point at the right line

A fault that stops a compilation or that a check finds names a line of the script and its text, and so
does a fault of a run: it is that of the command that came next, with the line of the command around it
(`lines_of_faults`). Only what reads pictures could give a fault that brings another line along, and
then that line stays. What waits for a file may be refused when the program ends, and this fault is on no
line, be it at the line of an `EXIT` (`line?_of_full`).
-/

namespace CommandScript

namespace Script

open Recorder

variable {ls : List Line} {script : String} {log : Log} {settings : Settings} {f : Fault}

/-- What both walks found is on lines, and so are the commands up to the `EXIT` at the end. -/
structure Compiled.Placed (ls : List Line) (c : Compiled) : Prop where
  faults : ∀ f ∈ c.findings.faults, Script.Placed ls f
  entries : ∀ e ∈ c.program.commands, Assembly.Stands ls e ∨ e.command = .exit

theorem walksFrom_placed {d : Declarations} (h : Holding ls (Declarations.Anchored ls) d) :
    (walksFrom ls d).1.Yields (Compiled.Placed ls) (Placed ls) := by
  unfold walksFrom
  have hfirst := Declarations.walk_placed d h
  rcases hd : (Declarations.walk ls).run d with ⟨f | u, d'⟩ <;> rw [hd] at hfirst
  · exact hfirst.2
  · have hstart : Holding ls (Assembly.Anchored ls) d'.assembly :=
      ⟨hfirst.1.placed, fun e he => absurd he (Array.not_mem_empty e), hfirst.1.rest.subroutines⟩
    have hsecond := Assembly.walk_placed d'.assembly hstart
    dsimp only
    rcases ha : (Assembly.walk ls).run d'.assembly with ⟨f | u, a⟩ <;> rw [ha] at hsecond
    · exact hsecond.2
    · exact ⟨hsecond.placed, hsecond.rest⟩

theorem walks_placed (settings : Settings) (collecting : Bool) (script : String) (log : Log) :
    (walks settings collecting script log).1.Yields (Compiled.Placed (lines script))
      (Placed (lines script)) := by
  rw [walks_eq]
  exact walksFrom_placed ⟨nofun, nofun, nofun, nofun⟩

theorem placed_of_compile (h : (compile settings script log).1 = .error f) :
    Placed (lines script) f := by
  have hwalks := walks_placed settings false script log
  unfold compile at h
  rcases hw : walks settings false script log with ⟨g | c, log'⟩ <;> rw [hw] at h hwalks
  · cases h
    exact hwalks
  · cases h

theorem stands_of_compile {p : Program} {e : Entry}
    (h : (compile settings script log).1 = .ok p) (he : e ∈ p.commands) :
    Assembly.Stands (lines script) e ∨ e.command = .exit := by
  have hwalks := walks_placed settings false script log
  unfold compile at h
  rcases hw : walks settings false script log with ⟨g | c, log'⟩ <;> rw [hw] at h hwalks
  · cases h
  · cases h
    exact hwalks.entries e he

theorem placed_of_check (h : f ∈ (check settings script log).1.faults) :
    Placed (lines script) f := by
  have hwalks := walks_placed settings true script log
  unfold check at h
  rcases hw : walks settings true script log with ⟨g | c, log'⟩ <;> rw [hw] at h hwalks
  · cases List.mem_singleton.mp h
    exact hwalks
  · exact hwalks.faults f h

end Script

namespace Engine

open Script

variable {p : Program} {e : Engine} {script : String} {log : Log} {settings : Settings} {f : Fault}

/-- `EXIT` ends the program without a fault. -/
theorem FailsBy.ne_exit {entry : Entry} {g : Fault} {e' : Engine} (h : e.FailsBy entry g e') :
    entry.command ≠ .exit := by
  intro hexit
  have hrun := h.2
  unfold execute at hrun
  rw [hexit] at hrun
  cases hrun

/-- The command that fails stands on a line of the script. -/
theorem FailsBy.reads {entry : Entry} {g : Fault} {e' : Engine} (h : e.FailsBy entry g e')
    (hp : (compile settings script log).1 = .ok e.program) : Reads script entry.line entry.text :=
  reads_of_mem ((stands_of_compile hp (Array.mem_of_getElem? h.1)).resolve_right h.ne_exit)

/-- The fault gets the line of its command, unless it is one of what reads pictures and has a
line. -/
theorem FailsBy.atLine_cases {entry : Entry} {g : Fault} {e' : Engine} (h : e.FailsBy entry g e') :
    g.line? = none ∧ g.atLine entry.line entry.text = .onLine entry.line entry.text g ∨
      g.line?.isSome ∧ g.atLine entry.line entry.text = g ∧
        (∃ path, entry.command = .scan path) ∧ ∃ path, e.scan path = .error g := by
  rcases hline : g.line? with _ | n
  · exact .inl ⟨rfl, atLine_of_line?_eq hline _ _⟩
  · have hscan := (line?_of_execute h.2).resolve_left (by rw [hline]; exact nofun)
    exact .inr ⟨rfl, by rw [Fault.atLine, hline], hscan⟩

/-- The fault names no line. -/
theorem FailsAtEnd.line?_eq {e' : Engine} (h : e.FailsAtEnd f e') : f.line? = none := by
  obtain ⟨⟨_, p, hrefused, -⟩, -⟩ := h
  exact (Files.Papers.unplaced_settle.run e.papers).line?_eq f (congrArg Prod.fst hrefused)

theorem Visits.drained (h : Visits p e) : Visits p e.drained :=
  drained_induction h (fun _ h => h.mailbox []) fun _ c h => h.control c

/-- A run ends in a fault by a step. -/
theorem Visits.exists_step (h : Visits p e) {turns : Nat}
    (hf : (e.runFor turns).1 = some (.error f)) : ∃ e', Visits p e' ∧ e'.step.1 = .error f := by
  induction turns generalizing e with
  | zero => cases hf
  | succ turns ih =>
    rw [Engine.runFor] at hf
    rcases ht : e.turn with ⟨_ | outcome, after⟩ <;> rw [ht] at hf
    · have hafter := h.turn
      rw [ht] at hafter
      exact ih hafter hf
    · cases hf
      refine ⟨e.drained, h.drained, ?_⟩
      rcases e.turn_cases with ⟨_, _, _, hturn, hnot⟩ | ⟨_, _, hturn, hstep⟩ <;> rw [ht] at hturn
      · cases hturn
        exact absurd rfl (hnot f)
      · cases hturn
        exact hstep f rfl

/-- Every fault of a compilation or a check names a line of the script that counts, with its text, and
nothing below names one. Wherever a run of the program is, a fault of its next command is the one that
came up inside, of the same kind, on the line and with the text of this command; only a fault that has
a line already, and that what reads pictures gave, stays as it is. Where the program ends, behind its
commands or at a command that ends it, what waits for a file may be refused, and this fault names no line.
A run has no other faults. -/
theorem lines_of_faults (settings : Settings) (script : String) (log : Log) :
    (∀ f, (compile settings script log).1 = .error f ∨
        f ∈ (check settings script log).1.faults →
      ∃ n text g, f = .onLine n text g ∧ g.line? = none ∧ Reads script n text) ∧
    ∀ p e, (compile settings script log).1 = .ok p → Visits p e →
      (∀ f e', e.step = (.error f, e') →
        (∃ entry g e₁, p.commands[e.next]? = some entry ∧ e.FailsBy entry g e₁ ∧
          Reads script entry.line entry.text ∧ f.kind = g.kind ∧
          (g.line? = none ∧ f = .onLine entry.line entry.text g ∨
            g.line?.isSome ∧ f = g ∧
              (∃ path, entry.command = .scan path) ∧ ∃ path, e.scan path = .error g)) ∨
        (Files.Papers.settle.run e.papers).1 = .error f ∧ f.kind = .io ∧ f.line? = none ∧
          ∀ entry, p.commands[e.next]? = some entry →
            entry.command = .endMain ∨ entry.command = .exit) ∧
      ∀ turns f, (e.runFor turns).1 = some (.error f) → ∃ e', Visits p e' ∧ e'.step.1 = .error f := by
  refine ⟨fun f h => ?_, fun p e hp h => ⟨fun f e' hstep => ?_, fun turns f => h.exists_step⟩⟩
  · obtain ⟨l, hl, g, hfault, hg⟩ := h.elim placed_of_compile placed_of_check
    exact ⟨l.number, l.text, g, hfault, hg, reads_of_mem hl⟩
  · have hprogram : e.program = p := (h.steady hp).program
    rcases step_error hstep with ⟨entry, g, e₁, hfails, rfl⟩ | hend
    · exact .inl ⟨entry, g, e₁, hprogram ▸ hfails.1, hfails, hfails.reads (hprogram ▸ hp),
        Fault.kind_atLine _ _ _, hfails.atLine_cases⟩
    · obtain ⟨⟨_, papers, hrefused, -⟩, hcommand⟩ := id hend
      exact .inr ⟨congrArg Prod.fst hrefused, hend.kind_eq, hend.line?_eq, hprogram ▸ hcommand⟩

/-- A subroutine that is not ended, behind a comment and an empty line. -/
def unfinished : String := "# begins\n\n  SUB a\nGOSUB b\n"

/-- A division by zero on the third line. -/
def dividing : String := "ALLOCATE GLOBAL Integer n\n\n  SET n = 1 / $n  \n"

theorem lines_of_faults_dividing :
    (∃ f, (compile {} unfinished).1 = .error f ∧
      ∃ n text g, f = .onLine n text g ∧ g.line? = none ∧ Reads unfinished n text) ∧
    ∃ p e f e', (compile {} dividing).1 = .ok p ∧ Visits p e ∧ e.step = (.error f, e') ∧
      f.line? = some 3 ∧ ∃ entry g e₁, e.FailsBy entry g e₁ ∧ f.kind = g.kind ∧
        Reads dividing entry.line entry.text := by
  constructor
  · have hfails : (compile {} unfinished).1.isOk = false := by decide +kernel
    cases hf : (compile {} unfinished).1 with
    | ok p =>
      rw [hf] at hfails
      cases hfails
    | error f => exact ⟨f, rfl, (lines_of_faults {} unfinished {}).1 f (.inl hf)⟩
  · obtain ⟨p, e, hp, hready, h⟩ := exists_of_tried dividing
      (fun _ e => match e.step.2.step.1 with
        | .ok _ => false
        | .error f => f.line? == some 3)
      (by decide +kernel)
    have hvisits : Visits p e.step.2 := (Visits.start hready).step
    rcases hstep : e.step.2.step with ⟨f | u, e'⟩ <;> rw [hstep] at h
    · have hline : f.line? = some 3 := beq_iff_eq.mp h
      obtain ⟨entry, g, e₁, -, hfails, hreads, hkind, -⟩ | ⟨-, -, hnone, -⟩ :=
        ((lines_of_faults {} dividing {}).2 p _ hp hvisits).1 f e' hstep
      · exact ⟨p, _, f, e', hp, hvisits, hstep, hline, entry, g, e₁, hfails, hkind, hreads⟩
      · cases hline.symm.trans hnone
    · cases h

/-- What was printed on the first line waits for the copy until the program ends. -/
def printing : String := "PRINT \"x\"\nEXIT"

/-- The `EXIT` on the second line ends in a fault of files, and the fault is on no line. -/
theorem line?_of_full : ∃ p e f, (compile copying printing).1 = .ok p ∧ Visits p e ∧
    (p.commands[e.next]?.map fun entry => (entry.command, entry.line)) = some (.exit, 2) ∧
    e.step.1 = .error f ∧ f.kind = .io ∧ f.line? = none := by
  obtain ⟨p, e, hp, hready, h⟩ := exists_of_triedOn copying clogged printing
    (fun p e => (p.commands[e.step.2.next]?.map fun entry => (entry.command, entry.line)) ==
      some (.exit, 2) && match e.step.2.step.1 with
        | .ok _ => false
        | .error f => f.kind == .io && f.line? == none)
    (by decide +kernel)
  rw [Bool.and_eq_true, beq_iff_eq] at h
  rcases hstep : e.step.2.step.1 with f | u <;> rw [hstep] at h
  · have hfault := Bool.and_eq_true_iff.mp h.2
    exact ⟨p, e.step.2, f, hp, (Visits.start hready).step, h.1, hstep, beq_iff_eq.mp hfault.1,
      beq_iff_eq.mp hfault.2⟩
  · cases h.2

end Engine

end CommandScript
