import CommandScript.Control
import CommandScript.Engine.Viewpoint
import CommandScript.Files.Desk
import CommandScript.Program
import CommandScript.Settings

/-!
# The engine

An engine runs one program. It is a value: the program, what its variables hold, the command that
comes next, the calls, chains and loops in progress, the desk of the file commands, what was printed,
and how it is steered.
-/

namespace CommandScript

open Files

structure Engine where
  program : Program
  memory : Memory
  /-- The store that a reset goes back to. -/
  initial : Store
  /-- The index of the command that comes next. -/
  next : Nat := 0
  /-- The calls in progress, innermost first. -/
  calls : List CommandScript.Frame := []
  /-- Whether a branch was taken, by depth of calls and index of the `IF`. -/
  taken : Assoc (Nat × Nat) Bool := []
  /-- The loops in progress, innermost first. -/
  loops : List ActiveLoop := []
  desk : Desk
  /-- The base directory that a reset goes back to. -/
  base : String
  /-- The text in the picture at a path. -/
  scan : String → Checked String
  state : RunState := .running
  /-- The control commands that wait, once a mailbox was opened. Nobody sends more. -/
  mailbox : Option (List Control) := none
  /-- The lines to pause before, in order. -/
  breakpoints : List Nat := []
  /-- The next command runs even if it is on a line to pause before. -/
  skipBreakpoint : Bool := false
  output : Array String := #[]
  /-- The file that takes a copy of the output. -/
  copy : Option Handle := none
  finished : Bool := false

/-- An operation of the engine. What it did before a fault stays done. -/
abbrev EngineM := ExceptT Fault (StateM Engine)

namespace Engine

/-- There is nothing that can read pictures. -/
def noScanner (path : String) : Checked String :=
  .fail .runtime s!"no OCR engine configured (scanning {path})"

/-- How many calls are in progress. -/
def depth (e : Engine) : Nat := e.calls.length

/-- The subroutine that runs. -/
def owner (e : Engine) : String :=
  match e.calls with
  | frame :: _ => frame.subroutine
  | [] => mainOwner

/-- Where the next command stands. -/
def viewpoint (e : Engine) : Viewpoint where
  owner := e.owner
  depth := e.depth
  loops := e.loops

def report (e : Engine) (c : Category) (message : String) : Engine :=
  { e with memory := e.memory.report c message }

def onMemory (action : MemoryM α) : EngineM α := fun e =>
  let (answer, memory) := action.run e.memory
  (answer, { e with memory })

def onDesk (action : DeskM α) : EngineM α := fun e =>
  let (answer, desk) := action.run e.desk
  (answer, { e with desk })

/-- The desk and the copy of the output. -/
def papers (e : Engine) : Papers :=
  { desk := e.desk, copy := e.copy }

def onPapers (action : PapersM α) : EngineM α := fun e =>
  let (answer, papers) := action.run e.papers
  (answer, { e with desk := papers.desk, copy := papers.copy })

def onStore (action : StoreM α) : EngineM α :=
  onMemory (MemoryM.onStore action)

/-- Changes a reserved variable. -/
def onCells (f : Cells → Cells) : EngineM Unit :=
  modify fun e =>
    { e with memory := { e.memory with
      store := { e.memory.store with cells := f e.memory.store.cells } } }

/-- Runs a look-up from where the next command stands. -/
def seen (action : Viewpoint → MemoryM α) : EngineM α := do
  onMemory (action (← get).viewpoint)

def number (f : Formula) : EngineM Int64 :=
  seen fun v => f.evaluate (lookInteger v.look)

def text (a : Argument) : EngineM String :=
  seen fun v => a.evaluateText v.look

def value (a : Argument) : EngineM Value :=
  seen fun v => a.evaluate v.look

def truth (c : Condition) : EngineM Bool :=
  seen fun v => c.evaluate v.look

/-- Adds a line to the log, the copy of the output and the output. -/
def print (line : String) : EngineM Unit := do
  modify fun e => e.report .normal line
  onPapers (Papers.copyLine line)
  modify fun e => { e with output := e.output.push line }

def applyOption (o : ScriptOption) : EngineM Unit := do
  match o with
  | .debug mask =>
    modify fun e => { e with memory := { e.memory with log := e.memory.log.withMask mask } }
  | .testPath directory =>
    modify fun e => { e with desk := { e.desk with base := e.desk.resolve directory } }
  | .outputFile path => onPapers (Papers.copyTo path)
  modify fun e => e.report .props s!"option applied: {o.shown}"

def applyOptions (options : List ScriptOption) : EngineM Unit :=
  options.forM applyOption

/-- An engine at the beginning of a program, before any option is applied. -/
def ofProgram (p : Program) (settings : Settings) (log : Log) (clock : Moment)
    (draw : Generator → Nat → Nat) (tree : Tree) (scan : String → Checked String) : Engine where
  program := p
  memory := { store := p.store, log, clock, draw }
  initial := p.store
  desk := { base := settings.testPath, tree }
  base := settings.testPath
  scan

/-- Applies the options of the settings and of the startup block. -/
def prepare (settings : Settings) : EngineM Unit := do
  if !settings.outputFile.isEmpty then
    applyOption (.outputFile settings.outputFile)
  applyOptions (← get).program.startup
  modify fun e => { e with base := e.desk.base }

/-- Starts the random numbers from a seed, now and after every reset. -/
def seeded (e : Engine) (seed : UInt64) : Engine :=
  let seedStore (s : Store) : Store := { s with cells := s.cells.seeded seed }
  { e with
    initial := seedStore e.initial
    memory := { e.memory with store := seedStore e.memory.store } }

/-- Opens a mailbox in which control commands wait. -/
def withMailbox (e : Engine) (waiting : List Control) : Engine :=
  { e with mailbox := some waiting }

/-- Closes the open file, if there is one. -/
def closeFile : EngineM Unit :=
  onPapers Papers.closeFile

/-- What waits for the copy of the output is written to its file. -/
def flushCopy : EngineM Unit :=
  onPapers Papers.flushCopy

/-- The tree that is left when the engine is given up: what waits for files has reached them, where
they take it. -/
def leftTree (e : Engine) : Tree :=
  let (_, e) := closeFile.run e
  let (_, e) := flushCopy.run e
  e.desk.tree

end Engine

end CommandScript
