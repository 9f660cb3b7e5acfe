import CommandScript.Assembly
import CommandScript.Settings

/-!
# Compiling a script

The two walks one after the other. `compile` gives the program or the first fault; `check` goes on
after faults and gives them all. Both set the log mask from the settings and hand the log back.
-/

namespace CommandScript.Script

/-- What a check found. -/
structure Report where
  faults : List Fault
  /-- How many commands the script has, the `EXIT` at its end included. -/
  commands : Nat

def Report.isClean (r : Report) : Bool :=
  r.faults.isEmpty

/-- What both walks leave behind. -/
structure Compiled where
  program : Program
  findings : Findings

/-- The program that an assembly has become. -/
def programOf (d : Declarations) (a : Assembly) : Program where
  commands := a.commands
  chains := a.chains
  loops := a.loops
  subroutines := a.subroutines
  store := a.memory.store
  startup := d.startup

/-- Both walks over a script. -/
def walks (settings : Settings) (collecting : Bool) (script : String) (log : Log) :
    Checked Compiled × Log :=
  let lines := Script.lines script
  let memory : Memory :=
    { store := Store.empty settings.randomMax, log := log.withMask settings.mask }
  match (Declarations.walk lines).run { memory, findings := { collecting } } with
  | (.error f, d) => (.error f, d.memory.log)
  | (.ok (), d) =>
    let start : Assembly :=
      { memory := d.memory, findings := d.findings, subroutines := d.subroutines }
    match (Assembly.walk lines).run start with
    | (.error f, a) => (.error f, a.memory.log)
    | (.ok (), a) => (.ok ⟨programOf d a, a.findings⟩, a.memory.log)

/-- The program that a script becomes, or its first fault. -/
def compile (settings : Settings) (script : String) (log : Log := {}) : Checked Program × Log :=
  let (result, log) := walks settings false script log
  (Compiled.program <$> result, log)

/-- All faults of a script. -/
def check (settings : Settings) (script : String) (log : Log := {}) : Report × Log :=
  match walks settings true script log with
  | (.ok c, log) => (⟨c.findings.faults, c.program.size⟩, log)
  | (.error f, log) => (⟨[f], 0⟩, log)

end CommandScript.Script
