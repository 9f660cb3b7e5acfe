import CommandScript.Program

/-!
# The tree of a program

Grouped by the brackets that belong together, the commands of a program are a tree. The list is read
from its end: a closing command begins a group, and the command that opens it makes a node of what
was read between them.
-/

namespace CommandScript

mutual

/-- Commands in order. A node keeps the commands that its brackets are. -/
inductive Block where
  | nil
  | command (entry : Entry) (rest : Block)
  | chain (condition : Condition) (opening : Entry) (body : Block) (arms : Arms) (rest : Block)
  | loop (id : LoopId) (opening : Entry) (body : Block) (ending : Entry) (rest : Block)
  | sub (name : String) (opening : Entry) (body : Block) (ending : Entry) (rest : Block)

/-- What follows the first branch of a chain: an `ELSE` is an arm without a condition. -/
inductive Arms where
  | ending (entry : Entry)
  | arm (condition : Option Condition) (marker : Entry) (body : Block) (arms : Arms)

end

mutual

def Block.entries : Block → List Entry
  | .nil => []
  | .command entry rest => entry :: rest.entries
  | .chain _ opening body arms rest => opening :: (body.entries ++ (arms.entries ++ rest.entries))
  | .loop _ opening body ending rest => opening :: (body.entries ++ ending :: rest.entries)
  | .sub _ opening body ending rest => opening :: (body.entries ++ ending :: rest.entries)

def Arms.entries : Arms → List Entry
  | .ending entry => [entry]
  | .arm _ marker body arms => marker :: (body.entries ++ arms.entries)

end

/-- The `ENDIF` of a chain. -/
def Arms.last : Arms → Entry
  | .ending entry => entry
  | .arm _ _ _ arms => arms.last

/-- The body of a subroutine and its `ENDSUB`. -/
def Block.sub? (name : String) : Block → Option (Block × Entry)
  | .nil => none
  | .command _ rest | .chain _ _ _ _ rest | .loop _ _ _ _ rest => rest.sub? name
  | .sub other _ body ending rest => if other = name then some (body, ending) else rest.sub? name

/-- A group that waits for the command that opens it, and what was read behind the group. -/
inductive Pending where
  | chain (arms : Arms) (rest : Block)
  | loop (ending : Entry) (rest : Block)
  | sub (ending : Entry) (rest : Block)

def Pending.entries : Pending → List Entry
  | chain arms rest => arms.entries ++ rest.entries
  | loop ending rest => ending :: rest.entries
  | sub ending rest => ending :: rest.entries

namespace Entry

/-- Begins a further branch of the innermost chain. -/
def mark (e : Entry) (condition : Option Condition) (b : Block) :
    List Pending → Option (Block × List Pending)
  | .chain arms rest :: outer => some (.nil, .chain (.arm condition e b arms) rest :: outer)
  | _ => none

/-- Puts a command in front of what was read behind it. -/
def shift (e : Entry) (b : Block) (pending : List Pending) : Option (Block × List Pending) :=
  match e.command with
  | .endIf => some (.nil, .chain (.ending e) b :: pending)
  | .endFor _ => some (.nil, .loop e b :: pending)
  | .endSub => some (.nil, .sub e b :: pending)
  | .elseIf c => e.mark (some c) b pending
  | .else_ => e.mark none b pending
  | .if_ c =>
    match pending with
    | .chain arms rest :: outer => some (.chain c e b arms rest, outer)
    | _ => none
  | .for_ id =>
    match pending with
    | .loop ending rest :: outer => some (.loop id e b ending rest, outer)
    | _ => none
  | .sub name _ =>
    match pending with
    | .sub ending rest :: outer => some (.sub name e b ending rest, outer)
    | _ => none
  | _ => some (.command e b, pending)

end Entry

/-- Reads commands from their end. -/
def readGroups : List Entry → Option (Block × List Pending)
  | [] => some (.nil, [])
  | e :: es => (readGroups es).bind fun read => e.shift read.1 read.2

/-- The tree of a list of commands, if its brackets match. -/
def group (es : List Entry) : Option Block :=
  match readGroups es with
  | some (b, []) => some b
  | _ => none

end CommandScript
