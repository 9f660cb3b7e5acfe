import CommandScript.CommandLine
import CommandScript.Files.Snapshot
import Std.Time

/-!
# The terminal

A call from the terminal is carried out on a tree that holds what is in the working directory, and
what the tree has become is written back. Output is shown as it comes, and lines of the input steer
a run while it is under way.
-/

namespace CommandScript.Terminal

open Files

/-- The items below a directory, each under its path from the working directory. -/
partial def itemsIn (path : String) : IO Snapshot := do
  let directory := (← IO.currentDir) / path
  let mut found : Snapshot := []
  for entry in ← directory.readDir do
    let below := if path.isEmpty then entry.fileName else s!"{path}/{entry.fileName}"
    match (← entry.path.symlinkMetadata).type with
    | .dir => found := found ++ (below, none) :: (← itemsIn below)
    | .file => found := found ++ [(below, some (← IO.FS.readBinFile below))]
    | _ => pure ()
  return found

/-- Adds a file that is named by its whole path. -/
def withNamed (t : Tree) (path : String) : IO Tree := do
  if !Path.isAbsolute path || t.isPresent path then
    return t
  try
    return t.withFile (Path.parts path).reverse (← IO.FS.readBinFile path)
  catch _ => return t

/-- The tree of the working directory. -/
def loadTree (args : List String) : IO Tree := do
  let home := (Path.parts (← IO.currentDir).toString).reverse
  args.foldlM withNamed ((Tree.ofSnapshot home (← itemsIn "")).withDevice ["full", "dev"])

def lookIn (s : Snapshot) (path : String) : Option (Option ByteArray) :=
  (s.find? fun item => item.1 == path).map (·.2)

/-- Brings the working directory from one state to another. -/
def writeBack (before after : Snapshot) : IO Unit := do
  for (path, content) in before.reverse do
    if (lookIn after path).isNone then
      match content with
      | some _ => IO.FS.removeFile path
      | none => IO.FS.removeDir path
  for (path, content) in after do
    match content with
    | none => IO.FS.createDirAll path
    | some bytes =>
      if lookIn before path != some (some bytes) then
        IO.FS.writeBinFile path bytes

def moment : IO Moment := do
  let now ← Std.Time.PlainDateTime.now
  return {
    day := ⟨now.year.toInt, now.month.toNat, now.day.toNat⟩
    hour := now.hour.toNat
    minute := now.minute.toNat
    second := now.second.toNat
    millisecond := now.nanosecond.toNat / 1000000 }

/-- A number below the bound that goes by the seed and by how many were asked for before. -/
def draw (g : Generator) (bound : Nat) : Nat :=
  (randNat (mkStdGen (hash (g.seed, g.asked.length)).toNat) 0 (bound - 1)).1

/-- The control lines that came in, and whether more may come. -/
structure Inbox where
  lines : List String := []
  isOpen : Bool

/-- Puts the lines of the input into the inbox until there are no more. -/
partial def collect (inbox : IO.Ref Inbox) (input : IO.FS.Stream) : IO Unit := do
  let line ← input.getLine
  if line.isEmpty then
    inbox.modify fun b => { b with isOpen := false }
  else
    inbox.modify fun b => { b with lines := b.lines ++ [line] }
    collect inbox input

/-- Hands the lines that came in to the engine. -/
def deliver (inbox : IO.Ref Inbox) (e : Engine) : IO Engine := do
  let lines ← inbox.modifyGet fun b => (b.lines, { b with lines := [] })
  match e.mailbox with
  | none => return e
  | some waiting =>
    return e.withMailbox (waiting ++ lines.flatMap fun line => CommandLine.controlsIn line)

/-- The run waits for a line of the input. -/
def isWaiting (e : Engine) : Bool :=
  match e.state, e.mailbox with
  | .paused, some [] => true
  | _, _ => false

/-- Shows the messages that the log gained. -/
def showFrom (seen : Nat) (e : Engine) : IO Unit := do
  for (category, message) in e.memory.log.entries.toSubarray seen do
    match category with
    | .normal => IO.println message
    | .error => IO.eprintln message
    | _ => pure ()

/-- Lets the engine take its turns until the run is over. -/
partial def drive (inbox : IO.Ref Inbox) (e : Engine) : IO (Checked RunOutcome × Engine) := do
  let isOpen := (← inbox.get).isOpen
  let e := (← deliver inbox e).drained
  if isWaiting e && isOpen then
    IO.sleep 10
    drive inbox e
  else
    let clock ← moment
    let seen := e.memory.log.entries.size
    match { e with memory := { e.memory with clock } }.turn with
    | (some outcome, e) =>
      showFrom seen e
      return (outcome, e)
    | (none, e) =>
      showFrom seen e
      drive inbox e

/-- Runs an engine to its end, and gives the exit code and the tree. -/
def runEngine (e : Engine) : IO (Nat × Tree) := do
  let inbox ← IO.mkRef ({ isOpen := e.mailbox.isSome } : Inbox)
  if e.mailbox.isSome then
    let _ ← IO.asTask (collect inbox (← IO.getStdin))
  let (outcome, e) ← drive inbox e
  let ending := CommandLine.Ending.ofRun outcome e
  return (ending.code, ending.tree)

/-- Carries a call out. -/
def call (args : List String) : IO UInt32 := do
  let tree ← loadTree args
  let entropy := UInt64.ofNat (← IO.rand 0 (UInt64.size - 1))
  let (code, after) ←
    match CommandLine.launch args { tree, clock := ← moment, draw, entropy } with
    | .error ending => do
      IO.print ending.printed
      for complaint in ending.complaints do
        IO.eprintln complaint
      pure (ending.code, ending.tree)
    | .ok engine => runEngine engine
  writeBack tree.snapshot after.snapshot
  return UInt32.ofNat code

end CommandScript.Terminal

def main (args : List String) : IO UInt32 :=
  CommandScript.Terminal.call args
