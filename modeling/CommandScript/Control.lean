import CommandScript.Numeral
import CommandScript.Text.Blank
import CommandScript.Text.Folded

/-!
# Control

The commands that steer a run from outside, and the states that a run is in between two commands of
its script.
-/

namespace CommandScript

open Text

inductive Control where
  | run
  | pause
  | resume
  | step
  | stop
  | reset
  /-- Pause before commands of this script line. -/
  | breakpoint (line : Nat)
  deriving DecidableEq, Repr

namespace Control

def toText : Control → String
  | run => "RUN"
  | pause => "PAUSE"
  | resume => "RESUME"
  | step => "STEP"
  | stop => "STOP"
  | reset => "RESET"
  | breakpoint line => s!"BREAKPT {line}"

instance : ToString Control := ⟨toText⟩

/-- The control commands that are one word. -/
def words : List (String × Control) :=
  [("RUN", run), ("PAUSE", pause), ("RESUME", resume), ("STEP", step), ("STOP", stop),
    ("RESET", reset)]

/-- The command that the first word begins, and the words that it leaves. -/
def readWord (word : String) (rest : List String) : Checked (Control × List String) :=
  match lookupWord words word with
  | some c => .ok (c, rest)
  | none =>
    if isWord "BREAKPT" word then
      match rest with
      | [] => .fail .malformed "BREAKPT needs a line number"
      | line :: rest =>
        match Numeral.natural? line.toList with
        | some n => .ok (breakpoint n, rest)
        | none => .fail .format s!"invalid line number '{line}'"
    else .fail .malformed s!"unknown control command '{word.toUpper}'"

/-- The control command that a text is. -/
def read (text : String) : Checked Control :=
  match (Text.words text.toList).map String.ofList with
  | [] => .fail .malformed "empty control command"
  | word :: rest => do
    match ← readWord word rest with
    | (c, []) => return c
    | (_, extra :: _) => Checked.fail .malformed s!"unexpected '{extra}' after {word}"

end Control

inductive RunState where
  | running
  | paused
  /-- Pause after one command. -/
  | stepping
  | stopped
  deriving DecidableEq, Repr

namespace RunState

def name : RunState → String
  | running => "RUNNING"
  | paused => "PAUSED"
  | stepping => "STEPPING"
  | stopped => "STOPPED"

instance : ToString RunState := ⟨name⟩

end RunState

/-- How a run ended. -/
inductive RunOutcome where
  | completed
  | paused
  | stopped
  deriving DecidableEq, Repr

end CommandScript
