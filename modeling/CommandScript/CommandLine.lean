import CommandScript.CommandLine.Request
import CommandScript.Engine.Run
import CommandScript.Script.Compile
import CommandScript.Settings.File

/-!
# The command line

What a call does: it takes the settings and the script from their files and carries its task out.
Misuse ends with code 2, every other failure with code 1. All that the program prints counts,
whether the run succeeds or not.
-/

namespace CommandScript.CommandLine

open Files

/-- What a call finds when it starts. -/
structure Surroundings where
  tree : Tree
  /-- The text of the input, which control commands are taken from. -/
  input : String := ""
  clock : Moment := Moment.epoch
  /-- The number that a generator gives for a bound. -/
  draw : Generator → Nat → Nat := fun _ _ => 0
  /-- Where random numbers start if the call does not say. -/
  entropy : UInt64 := 0

/-- How a call ends. -/
structure Ending where
  code : Nat
  printed : String := ""
  complaints : List String := []
  tree : Tree

namespace Ending

def ofFault (f : Fault) (tree : Tree) : Ending :=
  { code := 1, complaints := [f.message], tree }

def ofNoRequest (e : NoRequest) (tree : Tree) : Ending :=
  match e with
  | .misused => { code := 2, complaints := ["wrong arguments; see --help"], tree }
  | .help topic => { code := 0, printed := topic.page, tree }

end Ending

/-- The settings with one that is written as a key, an equals sign and a value. -/
def withSetting (s : Settings) (text : String) : Checked Settings :=
  match Text.cutAtMark '=' text.toList with
  | none => .fail .malformed s!"--set expects KEY=VALUE, got '{text}'"
  | some (key, value) => s.set (String.ofList (Text.trim key)) (String.ofList (Text.trim value))

/-- The settings of a request: those of its file, then single ones in their order. -/
def settingsOf (r : Request) (tree : Tree) : Checked Settings := do
  let base ← match r.config with
    | some path => Settings.ofFile tree path
    | none => .ok {}
  r.settings.foldlM withSetting base

def scriptOf (r : Request) (tree : Tree) : Checked String :=
  match Desk.textOf tree r.file with
  | .ok text => .ok text
  | .error why => .fail .io s!"reading script {r.file}: {why}"

/-- The control commands in the lines of a text. Other lines are passed over. -/
def controlsIn (text : String) : List Control :=
  (Text.lines text).filterMap fun line => (Control.read line).toOption

/-- The control commands that wait when a run starts, if it is steered at all. -/
def mailboxOf (r : Request) (input : String) : Option (List Control) :=
  if r.controlled then
    some ((if r.paused then [.pause] else []) ++ controlsIn input)
  else none

/-- An engine that is ready to run, or how the call ended before. -/
def engineOf (r : Request) (settings : Settings) (script : String) (s : Surroundings) :
    Except Ending Engine := do
  let (compiled, log) := Script.compile settings script
  let program ← compiled.mapError fun f => Ending.ofFault f s.tree
  let engine := Engine.ofProgram program settings log s.clock s.draw s.tree Engine.noScanner
  match (Engine.prepare settings).run engine with
  | (.error f, engine) => throw (Ending.ofFault f engine.leftTree)
  | (.ok (), engine) =>
    let engine := engine.seeded (r.seed.getD s.entropy)
    match mailboxOf r s.input with
    | some waiting => return engine.withMailbox waiting
    | none => return engine

def checked (r : Request) (settings : Settings) (script : String) (tree : Tree) : Ending :=
  let (report, _) := Script.check settings script
  if report.isClean then
    { code := 0, printed := s!"{r.file}: ok ({report.commands} commands)\n", tree }
  else
    { code := 1
      complaints := report.faults.map Fault.message
        ++ [s!"{r.file}: {report.faults.length} error(s) found"]
      tree }

def listed (settings : Settings) (script : String) (tree : Tree) : Ending :=
  match (Script.compile settings script).1 with
  | .ok program => { code := 0, printed := program.listing, tree }
  | .error f => Ending.ofFault f tree

/-- What a call comes to before any command runs: an engine to run, or its ending. -/
def launch (args : List String) (s : Surroundings) : Except Ending Engine := do
  let r ← (Request.read args).mapError fun e => Ending.ofNoRequest e s.tree
  let settings ← (settingsOf r s.tree).mapError fun f => Ending.ofFault f s.tree
  let script ← (scriptOf r s.tree).mapError fun f => Ending.ofFault f s.tree
  match r.task with
  | .run => engineOf r settings script s
  | .check => throw (checked r settings script s.tree)
  | .list => throw (listed settings script s.tree)

/-- How a call ends with a run. -/
def Ending.ofRun (outcome : Checked RunOutcome) (e : Engine) : Ending where
  code := match outcome with
    | .ok _ => 0
    | .error _ => 1
  printed := String.join ((e.memory.log.messages .normal).map fun m => m ++ "\n")
  complaints := e.memory.log.messages .error
  tree := e.leftTree

/-- The whole call, its run taking a number of turns at most. -/
def perform (turns : Nat) (args : List String) (s : Surroundings) : Option Ending :=
  match launch args s with
  | .error ending => some ending
  | .ok engine =>
    match engine.runFor turns with
    | (some outcome, engine) => some (Ending.ofRun outcome engine)
    | (none, _) => none

end CommandScript.CommandLine
