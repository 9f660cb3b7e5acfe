import CommandScript.Assoc
import CommandScript.Files.Path

/-!
# The tree of files

Directories and files under one root. A place in the tree is the list of names that lead to it,
innermost first. A file in the tree is a number, and the bytes belong to the number, so a file that
is open keeps its bytes when its place is removed. A full device has a number, too, but takes no
bytes. Paths are followed part by part: each part needs a directory to start from, and `..` leads to
the directory above the one reached.
-/

namespace CommandScript.Files

/-- Why the tree refuses an operation. -/
inductive Refusal where
  | notFound
  | busy
  | alreadyExists
  | notDirectory
  | isDirectory
  | invalid
  | noSpace
  | nameTooLong
  | notEmpty
  /-- The path has a NUL in it. -/
  | nul
  /-- There is no end to what can be read. -/
  | endless
  deriving DecidableEq, Repr

namespace Refusal

def message : Refusal → String
  | notFound => "No such file or directory (os error 2)"
  | busy => "Device or resource busy (os error 16)"
  | alreadyExists => "File exists (os error 17)"
  | notDirectory => "Not a directory (os error 20)"
  | isDirectory => "Is a directory (os error 21)"
  | invalid => "Invalid argument (os error 22)"
  | noSpace => "No space left on device (os error 28)"
  | nameTooLong => "File name too long (os error 36)"
  | notEmpty => "Directory not empty (os error 39)"
  | nul => "file name contained an unexpected NUL byte"
  | endless => "out of memory"

end Refusal

abbrev Place := List String

inductive Node where
  | directory
  | file (id : Nat)
  /-- A device that is full and gives zeros without end. -/
  | device (id : Nat)
  deriving DecidableEq, Repr

structure Tree where
  /-- The nodes below the root. -/
  nodes : Assoc Place Node := []
  contents : Assoc Nat ByteArray := []
  /-- No file or device has this number or a greater one. -/
  nextId : Nat := 0
  /-- The directory that relative paths start from. -/
  home : Place := []

namespace Tree

def nodeAt (t : Tree) : Place → Option Node
  | [] => some .directory
  | place => t.nodes.get? place

def bytesOf (t : Tree) (id : Nat) : ByteArray :=
  (t.contents.get? id).getD ByteArray.empty

/-- The name of one file or directory takes 255 bytes at most. -/
def isLongName (name : String) : Bool :=
  255 < name.utf8ByteSize

/-- The node of a name in a directory, if there is one. -/
def child (t : Tree) (place : Place) (name : String) : Except Refusal (Option Node) :=
  if isLongName name then .error .nameTooLong else .ok (t.nodeAt (name :: place))

/-- Goes on from a place by one part of a path. -/
def enter (t : Tree) (place : Place) (part : String) : Except Refusal Place :=
  match t.nodeAt place with
  | none => .error .notFound
  | some (.file _) | some (.device _) => .error .notDirectory
  | some .directory =>
    if part = "." then .ok place
    else if part = ".." then .ok place.tail
    else match t.child place part with
      | .error r => .error r
      | .ok none => .error .notFound
      | .ok (some _) => .ok (part :: place)

def start (t : Tree) (path : String) : Place :=
  if Path.isAbsolute path then [] else t.home

/-- A slash at the end asks for a directory. -/
def endsWithSlash (path : String) : Bool :=
  path.toList.getLast? == some '/'

/-- What is wrong with a path whatever the tree holds: a NUL, a length of 4096 bytes or more, or no
text at all. -/
def checkPath (path : String) : Except Refusal Unit :=
  if path.toList.contains '\x00' then .error .nul
  else if 4096 ≤ path.utf8ByteSize then .error .nameTooLong
  else if path.isEmpty then .error .notFound
  else .ok ()

/-- The place and node that a path leads to. -/
def locate (t : Tree) (path : String) : Except Refusal (Place × Node) := do
  checkPath path
  let place ← (Path.parts path).foldlM t.enter (t.start path)
  match t.nodeAt place with
  | none => throw .notFound
  | some .directory => return (place, .directory)
  | some node => if endsWithSlash path then throw .notDirectory else return (place, node)

def isFile (t : Tree) (path : String) : Bool :=
  match t.locate path with
  | .ok (_, .file _) => true
  | _ => false

def isDirectory (t : Tree) (path : String) : Bool :=
  match t.locate path with
  | .ok (_, .directory) => true
  | _ => false

def isPresent (t : Tree) (path : String) : Bool :=
  match t.locate path with
  | .ok _ => true
  | .error _ => false

/-- The directory that holds the last part of a path, and that part; no part for the root. -/
def locateParent (t : Tree) (path : String) : Except Refusal (Place × Option String) := do
  checkPath path
  match (Path.parts path).reverse with
  | [] => return ([], none)
  | last :: before =>
    let place ← before.reverse.foldlM t.enter (t.start path)
    match t.nodeAt place with
    | some .directory => return (place, some last)
    | some (.file _) | some (.device _) => throw .notDirectory
    | none => throw .notFound

/-- The last part of a path is a name and not a way to a directory. -/
def isNamePart (part : String) : Bool :=
  part ≠ "." && part ≠ ".."

def read (t : Tree) (path : String) : Except Refusal ByteArray := do
  match ← t.locate path with
  | (_, .file id) => return t.bytesOf id
  | (_, .directory) => throw .isDirectory
  | (_, .device _) => throw .endless

/-- The size in bytes; a directory takes one block. -/
def size (t : Tree) (path : String) : Except Refusal Nat := do
  match ← t.locate path with
  | (_, .file id) => return (t.bytesOf id).size
  | (_, .directory) => return 4096
  | (_, .device _) => return 0

/-- Puts an empty file at a place. -/
def addFile (t : Tree) (place : Place) : Nat × Tree :=
  (t.nextId,
    { t with
      nodes := t.nodes.put place (.file t.nextId)
      contents := t.contents.put t.nextId ByteArray.empty
      nextId := t.nextId + 1 })

/-- Makes a file that was not there. -/
def createNew (t : Tree) (path : String) : Except Refusal (Nat × Tree) := do
  let (place, last) ← t.locateParent path
  match last with
  | none => throw .alreadyExists
  | some part =>
    if !isNamePart part then throw .alreadyExists
    else if endsWithSlash path then throw .isDirectory
    else match ← t.child place part with
      | some _ => throw .alreadyExists
      | none => return t.addFile (part :: place)

/-- Removes a file from its place. -/
def removeFile (t : Tree) (path : String) : Except Refusal Tree := do
  let (place, last) ← t.locateParent path
  match last with
  | none => throw .isDirectory
  | some part =>
    if !isNamePart part then throw .isDirectory
    else match ← t.child place part with
      | none => throw .notFound
      | some .directory => throw .isDirectory
      | some (.file _) | some (.device _) =>
        if endsWithSlash path then throw .notDirectory
        else return { t with nodes := t.nodes.erase (part :: place) }

def makeDirectory (t : Tree) (path : String) : Except Refusal Tree := do
  let (place, last) ← t.locateParent path
  match last with
  | none => throw .alreadyExists
  | some part =>
    if !isNamePart part then throw .alreadyExists
    else if (← t.child place part).isSome then throw .alreadyExists
    else return { t with nodes := t.nodes.put (part :: place) .directory }

/-- The names in a directory, sorted. -/
def namesIn (t : Tree) (place : Place) : List String :=
  (t.nodes.filterMap fun e => match e.1 with
    | name :: above => if above = place then some name else none
    | [] => none).mergeSort fun a b => decide (a ≤ b)

/-- Removes a directory that nothing is in. -/
def removeDirectory (t : Tree) (path : String) : Except Refusal Tree := do
  let (place, last) ← t.locateParent path
  match last with
  | none => throw .busy
  | some part =>
    if part = "." then throw .invalid
    else if part = ".." then throw .notEmpty
    else match ← t.child place part with
      | none => throw .notFound
      | some (.file _) | some (.device _) => throw .notDirectory
      | some .directory =>
        if (t.namesIn (part :: place)).isEmpty then
          return { t with nodes := t.nodes.erase (part :: place) }
        else throw .notEmpty

/-- Makes a directory and those above it, the steps being given innermost first. The directories
made before a refusal stay. -/
def makeAllFrom (t : Tree) (path : String) : List Step → Except Refusal Unit × Tree
  | [] => (.ok (), t)
  | _ :: above =>
    match t.makeDirectory path with
    | .ok t => (.ok (), t)
    | .error .notFound =>
      match makeAllFrom t (Path.ofSteps above.reverse) above with
      | (.error r, t) => (.error r, t)
      | (.ok (), t) =>
        match t.makeDirectory path with
        | .ok t => (.ok (), t)
        | .error r => (if t.isDirectory path then .ok () else .error r, t)
    | .error r => (if t.isDirectory path then .ok () else .error r, t)

/-- Makes a directory and the missing ones above it. -/
def makeAll (t : Tree) (path : String) : Except Refusal Unit × Tree :=
  t.makeAllFrom path (Path.steps path).reverse

/-- The names in the directory that a path leads to, each with its node. -/
def entries (t : Tree) (path : String) : Except Refusal (List (String × Node)) := do
  match ← t.locate path with
  | (_, .file _) | (_, .device _) => throw .notDirectory
  | (place, .directory) =>
    return (t.namesIn place).filterMap fun name =>
      (t.nodeAt (name :: place)).map fun node => (name, node)

end Tree

/-- A way to write to a file: at its end, or from an offset of its own. What is written waits in
`pending` as long as there is room. -/
structure Handle where
  id : Nat
  offset : Option Nat
  /-- It leads to a full device, which takes nothing. -/
  full : Bool := false
  pending : ByteArray := ByteArray.empty

namespace Tree

/-- Makes a file, or empties the one that is there, to write to it from its beginning. -/
def createEmpty (t : Tree) (path : String) : Except Refusal (Handle × Tree) := do
  let (place, last) ← t.locateParent path
  match last with
  | none => throw .isDirectory
  | some part =>
    if !isNamePart part || endsWithSlash path then throw .isDirectory
    else match ← t.child place part with
      | some .directory => throw .isDirectory
      | some (.file id) =>
        return ({ id, offset := some 0 }, { t with contents := t.contents.put id ByteArray.empty })
      | some (.device id) => return ({ id, offset := some 0, full := true }, t)
      | none =>
        let (id, t) := t.addFile (part :: place)
        return ({ id, offset := some 0 }, t)

end Tree

/-- The bytes with `new` written over them at `offset`; a gap is filled with zeros. -/
def overwritten (old new : ByteArray) (offset : Nat) : ByteArray :=
  let gap := ByteArray.mk (Array.replicate (offset - old.size) 0)
  (old ++ gap).extract 0 offset ++ new ++ old.extract (offset + new.size) old.size

namespace Handle

/-- How many bytes may wait. -/
def room : Nat := 8192

/-- Writes bytes to the file as they are. -/
def put (h : Handle) (bytes : ByteArray) (t : Tree) : Except Refusal (Handle × Tree) :=
  let old := t.bytesOf h.id
  if bytes.isEmpty then .ok (h, t)
  else if h.full then .error .noSpace
  else match h.offset with
    | none => .ok (h, { t with contents := t.contents.put h.id (old ++ bytes) })
    | some n =>
      .ok ({ h with offset := some (n + bytes.size) },
        { t with contents := t.contents.put h.id (overwritten old bytes n) })

/-- Writes the bytes that wait to the file. -/
def flush (h : Handle) (t : Tree) : Except Refusal (Handle × Tree) := do
  let (h, t) ← h.put h.pending t
  return ({ h with pending := ByteArray.empty }, t)

/-- Makes room for so many bytes, by a flush where they have none beside those that wait. -/
def makeRoom (h : Handle) (size : Nat) (t : Tree) : Except Refusal (Handle × Tree) :=
  if room < h.pending.size + size then h.flush t else .ok (h, t)

/-- Lets bytes wait, once there is room for them; what exceeds all room does not wait at all. -/
def write (h : Handle) (bytes : ByteArray) (t : Tree) : Except Refusal (Handle × Tree) := do
  let (h, t) ← h.makeRoom bytes.size t
  if room ≤ bytes.size then h.put bytes t
  else return ({ h with pending := h.pending ++ bytes }, t)

/-- Writes a line: its text, and then its end. -/
def writeLine (h : Handle) (text : String) (t : Tree) : Except Refusal Unit × Handle × Tree :=
  match h.write text.toUTF8 t with
  | .error r => (.error r, h, t)
  | .ok (h, t) =>
    match h.write "\n".toUTF8 t with
    | .error r => (.error r, h, t)
    | .ok (h, t) => (.ok (), h, t)

end Handle

end CommandScript.Files
