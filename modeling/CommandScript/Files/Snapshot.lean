import CommandScript.Files.Tree

/-!
# Snapshots

A snapshot lists what is below the home of a tree: the path of each file and directory from there,
with the bytes of a file. A tree can be grown from a snapshot and gives one back. Devices are in no
snapshot.
-/

namespace CommandScript.Files

/-- A directory has no bytes. -/
abbrev Snapshot := List (String × Option ByteArray)

namespace Tree

/-- Makes the missing directories at a place and above it. -/
def withDirectory (t : Tree) : Place → Tree
  | [] => t
  | name :: above =>
    let t := t.withDirectory above
    match t.nodeAt (name :: above) with
    | some _ => t
    | none => { t with nodes := t.nodes.put (name :: above) .directory }

/-- Puts a file at a place, and directories above it where they are missing. -/
def withFile (t : Tree) (place : Place) (bytes : ByteArray) : Tree :=
  let (id, t) := (t.withDirectory place.tail).addFile place
  { t with contents := t.contents.put id bytes }

/-- Puts a full device at a place, and directories above it where they are missing. -/
def withDevice (t : Tree) (place : Place) : Tree :=
  let t := t.withDirectory place.tail
  { t with nodes := t.nodes.put place (.device t.nextId), nextId := t.nextId + 1 }

def withItem (t : Tree) (item : String × Option ByteArray) : Tree :=
  let place := (Path.parts item.1).reverse ++ t.home
  match item.2 with
  | none => t.withDirectory place
  | some bytes => t.withFile place bytes

/-- The tree with a home that a snapshot describes. -/
def ofSnapshot (home : Place) (s : Snapshot) : Tree :=
  s.foldl withItem (({ home } : Tree).withDirectory home)

/-- The names that lead from `home` to a place below it, innermost first. -/
def below? (home place : Place) : Option Place :=
  if home.isSuffixOf place ∧ home.length < place.length then
    some (place.take (place.length - home.length))
  else none

def snapshot (t : Tree) : Snapshot :=
  t.nodes.filterMap fun (place, node) => do
    let path := "/".intercalate (← below? t.home place).reverse
    match node with
    | .directory => some (path, none)
    | .file id => some (path, some (t.bytesOf id))
    | .device _ => none

end Tree

end CommandScript.Files
