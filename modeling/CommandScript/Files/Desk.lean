import CommandScript.Fault
import CommandScript.Files.Tree
import CommandScript.Files.Words

/-!
# The desk

The file commands work at a desk: a base directory that relative paths start from, one open file at
most, and the tree they all work on. A file open for reading is its lines as they were when it was
opened, with the position of the next one; what is written to a file reaches the tree when the file is
closed, or when too much of it waits.
-/

namespace CommandScript.Files

inductive Access where
  /-- The lines of the file, and how many of them were read. -/
  | reading (lines : List String) (position : Nat)
  | writing (handle : Handle)

structure OpenFile where
  path : String
  access : Access

structure Desk where
  base : String
  opened : Option OpenFile := none
  tree : Tree := {}

/-- Goes on with what the tree answered, or fails with the refusal. -/
def orRefused {σ α : Type} : Except Refusal α → ExceptT Fault (StateM σ) α
  | .ok a => return a
  | .error r => throw (.cause .io r.message)

/-- An operation at the desk. What it did before a fault stays done. -/
abbrev DeskM := ExceptT Fault (StateM Desk)

namespace Desk

def fail (detail : String) : DeskM α :=
  throw (.cause .io detail)

/-- The path as seen from the base. -/
def resolve (d : Desk) (path : String) : String :=
  Path.join d.base path

def isOpen (d : Desk) : Bool :=
  d.opened.isSome

def atBase (path : String) : DeskM String := do
  return (← get).resolve path

/-- Goes on with what the tree answered, or fails with the path and the refusal. -/
def orFail (path : String) : Except Refusal α → DeskM α
  | .ok a => return a
  | .error r => fail s!"{path}: {r.message}"

def setTree (tree : Tree) : DeskM Unit :=
  modify fun d => { d with tree }

/-- The text of bytes in UTF-8. -/
def decode? (bytes : ByteArray) : Option String :=
  String.fromUTF8? bytes

def notText : String := "stream did not contain valid UTF-8"

/-- The text of a file, or why it cannot be read. -/
def textOf (tree : Tree) (path : String) : Except String String :=
  match tree.read path with
  | .error r => .error r.message
  | .ok bytes =>
    match decode? bytes with
    | some text => .ok text
    | none => .error notText

def ensureClosed : DeskM Unit := do
  if let some f := (← get).opened then
    fail s!"file already open: {f.path}"

/-- Opens a file that is there. -/
def openFile (path : String) (mode : Mode) : DeskM Unit := do
  ensureClosed
  let path ← atBase path
  let tree := (← get).tree
  match tree.locate path with
  | .ok (_, .file id) =>
    let access ← match mode with
      | .read =>
        match textOf tree path with
        | .ok text => pure (Access.reading (Text.lines text) 0)
        | .error why => fail why
      | .write => pure (Access.writing { id, offset := none })
    modify fun d => { d with opened := some { path, access } }
  | _ => fail s!"file not found: {path}"

/-- Makes a new file and opens it for writing. -/
def create (path : String) : DeskM Unit := do
  ensureClosed
  let path ← atBase path
  match (← get).tree.createNew path with
  | .error r => fail s!"cannot create {path}: {r.message}"
  | .ok (id, tree) =>
    let access := Access.writing { id, offset := some 0 }
    modify fun d => { d with tree, opened := some { path, access } }

/-- Closes the open file. Even if what waits for it is refused, it is open no more. -/
def close : DeskM Unit := do
  match (← get).opened with
  | none => fail "no file open"
  | some { access := .reading .., .. } => modify fun d => { d with opened := none }
  | some { access := .writing handle, .. } =>
    modify fun d => { d with opened := none }
    let (_, tree) ← orRefused (handle.flush (← get).tree)
    setTree tree

/-- The desk without its open file. -/
def closed (d : Desk) : Desk :=
  (close.run d).2

/-- Reads some lines on, or all that are left. -/
def readLines (count : Option Nat) : DeskM (List String) := do
  match (← get).opened with
  | none => fail "no file open"
  | some { path, access := .writing _ } => fail s!"{path} is not open for reading"
  | some { path, access := .reading lines position } =>
    let remaining := lines.length - position
    let n := count.elim remaining fun n => min n remaining
    modify fun d => { d with opened := some { path, access := .reading lines (position + n) } }
    return (lines.drop position).take n

def writeLine (text : String) : DeskM Unit := do
  match (← get).opened with
  | none => fail "no file open"
  | some { path, access := .reading .. } => fail s!"{path} is not open for writing"
  | some { path, access := .writing handle } =>
    let (answer, handle, tree) := handle.writeLine text (← get).tree
    modify fun d => { d with tree, opened := some { path, access := .writing handle } }
    orRefused answer

/-- Whether a path leads to what the check asks for. All files can be read and written. -/
def passes (d : Desk) (path : String) (check : PathCheck) : Bool :=
  let path := d.resolve path
  match check with
  | .exists_ => d.tree.isPresent path
  | .directory => d.tree.isDirectory path
  | .readable | .writable => d.tree.isFile path

def size (path : String) : DeskM Nat := do
  let path ← atBase path
  orFail path ((← get).tree.size path)

def lineCount (path : String) : DeskM Nat := do
  let path ← atBase path
  match textOf (← get).tree path with
  | .ok text => return (Text.lines text).length
  | .error why => fail s!"{path}: {why}"

/-- Removes a file, but not under the path of the open one. -/
def delete (path : String) : DeskM Unit := do
  let path ← atBase path
  if let some f := (← get).opened then
    if Path.same f.path path then
      fail s!"cannot delete open file {path}"
  setTree (← orFail path ((← get).tree.removeFile path))

/-- Moves the base to another directory. -/
def changeDirectory (path : String) : DeskM Unit := do
  let path ← atBase path
  if !(← get).tree.isDirectory path then
    fail s!"not a directory: {path}"
  modify fun d => { d with base := path }

def makeDirectory (path : String) : DeskM Unit := do
  let path ← atBase path
  let (answer, tree) := (← get).tree.makeAll path
  setTree tree
  orFail path answer

def removeDirectory (path : String) : DeskM Unit := do
  let path ← atBase path
  setTree (← orFail path ((← get).tree.removeDirectory path))

/-- The names in a directory that are wanted, sorted. -/
def list (path : String) (wanted : Selection) : DeskM (List String) := do
  let path ← atBase path
  let entries ← orFail path ((← get).tree.entries path)
  return (entries.filter fun e => match wanted with
    | .all => true
    | .files => e.2 ≠ .directory
    | .directories => e.2 = .directory).map (·.1)

end Desk

/-! ### The copy of the output -/

/-- The desk, and the file that takes a copy of what a program prints. -/
structure Papers where
  desk : Desk
  copy : Option Handle := none

/-- An operation on the papers. What it did before a fault stays done. -/
abbrev PapersM := ExceptT Fault (StateM Papers)

namespace Papers

/-- Adds a line to the copy. -/
def copyLine (line : String) : PapersM Unit := do
  let p ← get
  if let some handle := p.copy then
    let (answer, handle, tree) := handle.writeLine line p.desk.tree
    set { desk := { p.desk with tree }, copy := some handle : Papers }
    orRefused answer

/-- What waits for the file that takes the copy is written to it. -/
def flushCopy : PapersM Unit := do
  let p ← get
  if let some handle := p.copy then
    let (handle, tree) ← orRefused (handle.flush p.desk.tree)
    set { desk := { p.desk with tree }, copy := some handle : Papers }

/-- Gives up the copy, and makes one in another file; an empty path ends copying. Even if what waits
for the first file is refused, it gets no more lines. -/
def copyTo (path : String) : PapersM Unit := do
  let (answer, p) := flushCopy.run (← get)
  set { p with copy := none }
  answer
  if !path.isEmpty then
    let (handle, tree) ← orRefused (p.desk.tree.createEmpty (p.desk.resolve path))
    set { desk := { p.desk with tree }, copy := some handle : Papers }

/-- Closes the open file, if there is one. -/
def closeFile : PapersM Unit := fun p =>
  if p.desk.isOpen then
    let (answer, desk) := Desk.close.run p.desk
    (answer, { p with desk })
  else (.ok (), p)

/-- Closes the open file and flushes the copy, so that nothing waits any more. -/
def settle : PapersM Unit := do
  closeFile
  flushCopy

end Papers

end CommandScript.Files
