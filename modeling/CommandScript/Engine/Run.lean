import CommandScript.Engine.Execution

/-!
# Running and steering

A run takes turns. In one turn the engine takes in the control commands that wait and then executes
one command, pauses or ends; a command is never interrupted. A fault stops the engine and carries
the line of its command.
-/

namespace CommandScript.Engine

/-- Marks the program as run to its end. The open file and the copy of the output get what waits for
them; if it is refused, this is a fault of no command. -/
def finish : EngineM Unit := do
  modify fun e => { e with finished := true, state := .stopped }
  onPapers Files.Papers.settle
  modify fun e => e.report .program s!"script finished at command {e.next}"

/-- Stops on a fault of a command, which gets its line. -/
def stopOn (entry : Entry) (f : Fault) (e : Engine) : Fault × Engine :=
  let f := f.atLine entry.line entry.text
  let e := e.report .error f.message
  let (_, e) := closeFile.run { e with state := .stopped }
  (f, e)

/-- Goes where a command says. -/
def follow (move : Move) : EngineM Unit :=
  match move with
  | .next => modify fun e => { e with next := e.next + 1 }
  | .jump target => modify fun e => { e with next := target }
  | .exit => finish

/-- Executes the command that comes next. -/
def step (e : Engine) : Checked Unit × Engine :=
  if e.finished then (.ok (), e)
  else match e.program.commands[e.next]? with
    | none => finish.run e
    | some entry =>
      match (execute entry).run { e with skipBreakpoint := false } with
      | (.ok move, e) => (follow move).run e
      | (.error f, e) =>
        let (f, e) := e.stopOn entry f
        (.error f, e)

/-- Closes the open file; that it cannot be written to is no more than a warning. -/
def closeOrWarn (e : Engine) : Engine :=
  match closeFile.run e with
  | (.ok (), e) => e
  | (.error f, e) => e.report .warn s!"closing file on reset: {f.message}"

/-- At the beginning of the program, with the variables as they were then. -/
def rewound (e : Engine) : Engine :=
  { e with
    memory := { e.memory with store := e.initial }
    next := 0
    calls := []
    taken := []
    loops := []
    output := #[] }

/-- Goes back to the beginning of the program. An engine that is paused stays paused. -/
def reset (e : Engine) : Engine :=
  let e := e.rewound.closeOrWarn
  let e := { e with
    desk := { e.desk with base := e.base }
    finished := false
    skipBreakpoint := false
    state := if e.state = RunState.paused then .paused else .running }
  e.report .program "reset"

/-- Puts a line among those to pause before. -/
def insertLine (line : Nat) : List Nat → List Nat
  | [] => [line]
  | n :: rest =>
    if line < n then line :: n :: rest
    else if line = n then n :: rest
    else n :: insertLine line rest

/-- Carries out a control command. -/
def control (e : Engine) (c : Control) : Engine :=
  let e := e.report .program s!"{c} received while {e.state}"
  match c with
  | .run | .resume =>
    if e.state = .stopped then e else { e with state := .running, skipBreakpoint := true }
  | .step =>
    if e.state = .stopped then e else { e with state := .stepping, skipBreakpoint := true }
  | .pause => if e.state = .stopped then e else { e with state := .paused }
  | .stop => { e with state := .stopped }
  | .reset => e.reset
  | .breakpoint line => { e with breakpoints := insertLine line e.breakpoints }

/-- Carries out the control commands that wait. -/
def drained (e : Engine) : Engine :=
  match e.mailbox with
  | none => e
  | some waiting => waiting.foldl control { e with mailbox := some [] }

/-- The line of the next command is one to pause before. -/
def breakpointLine? (e : Engine) : Option Nat :=
  if e.skipBreakpoint then none
  else match e.program.commands[e.next]? with
    | none => none
    | some entry => if e.breakpoints.contains entry.line then some entry.line else none

/-- Executes a command in its turn; a single step is over behind it. -/
def executeTurn (e : Engine) : Option (Checked RunOutcome) × Engine :=
  match e.step with
  | (.error f, after) => (some (.error f), after)
  | (.ok (), after) =>
    if e.state = .stepping ∧ after.state = .stepping then
      (none, { after with state := .paused })
    else (none, after)

/-- One turn of a run; it ends the run if it gives an outcome. -/
def turn (e : Engine) : Option (Checked RunOutcome) × Engine :=
  let e := e.drained
  match e.state with
  | .stopped => (some (.ok (if e.finished then .completed else .stopped)), e)
  | .paused =>
    match e.mailbox with
    | none => (some (.ok .paused), e)
    | some _ => (none, { e.report .program "control channel closed" with state := .stopped })
  | .running | .stepping =>
    match e.breakpointLine? with
    | some line =>
      (none, { e.report .program s!"breakpoint at line {line}" with state := .paused })
    | none => e.executeTurn

/-- Runs for a number of turns at most; no outcome means that more were needed. -/
def runFor : Nat → Engine → Option (Checked RunOutcome) × Engine
  | 0, e => (none, e)
  | turns + 1, e =>
    match e.turn with
    | (some outcome, e) => (some outcome, e)
    | (none, e) => runFor turns e

end CommandScript.Engine
