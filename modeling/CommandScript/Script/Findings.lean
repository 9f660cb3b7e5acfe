import CommandScript.Fault
import CommandScript.Log
import CommandScript.Text.Blank

/-!
# Lines of a script and what is found in them

A script is its lines with the blanks around them cut off. Empty lines and lines that begin with `#`
do not count, but they are numbered.
-/

namespace CommandScript.Script

structure Line where
  number : Nat
  text : String
  deriving DecidableEq, Repr

namespace Line

/-- A line that gives options without a keyword. -/
def isOption (text : List Char) : Bool :=
  text.head? == some '-'

/-- The line counts as a command. -/
def counts (text : List Char) : Bool :=
  !text.isEmpty && text.head? != some '#'

end Line

/-- The lines that count, the first of `raws` having number `number`. -/
def linesFrom (number : Nat) : List String → List Line
  | [] => []
  | raw :: rest =>
    let text := Text.trim raw.toList
    if Line.counts text then ⟨number, String.ofList text⟩ :: linesFrom (number + 1) rest
    else linesFrom (number + 1) rest

/-- The lines of a script that count, numbered from one. -/
def lines (script : String) : List Line :=
  linesFrom 1 (Text.lines script)

/-- The text of the line with a number. -/
def textOf (lines : List Line) (number : Nat) : String :=
  match lines.find? fun l => l.number == number with
  | some l => l.text
  | none => ""

/-!
## Findings

The faults found in a script. Compilation stops at the first one; a check goes on, reports each in
the log and keeps it, unless its text was found before.
-/

structure Findings where
  /-- Go on after a fault. -/
  collecting : Bool
  faults : List Fault := []

namespace Findings

/-- Takes in a fault: the findings and the log after it, or the fault itself where it stops the
compilation. -/
def record (found : Findings) (log : Log) (f : Fault) : Checked (Findings × Log) :=
  if !found.collecting then .error f
  else if found.faults.any fun g => g.message == f.message then .ok (found, log)
  else .ok ({ found with faults := found.faults ++ [f] }, log.add .error f.message)

end Findings

/-- A fault on a line that is known by its number. -/
def onNumber (lines : List Line) (number : Nat) (f : Fault) : Fault :=
  f.atLine number (textOf lines number)

def undefinedSub (name : String) : Fault :=
  .cause .compile s!"GOSUB to undefined subroutine {name}"

def nestedSub (name outer : String) : Fault :=
  .cause .compile s!"SUB {name} opened inside SUB {outer}; subroutines cannot nest"

def unclosedSub (name : String) : Fault :=
  .cause .compile s!"SUB {name} has no ENDSUB"

def endSubWithoutSub : Fault :=
  .cause .compile "ENDSUB without SUB"

def endMainInside (name : String) : Fault :=
  .cause .compile s!"ENDMAIN inside SUB {name}"

def endStartupWithoutStartup : Fault :=
  .cause .compile "ENDSTARTUP without STARTUP"

end CommandScript.Script
