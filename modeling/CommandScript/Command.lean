import CommandScript.Assignment
import CommandScript.Condition
import CommandScript.Files.Words
import CommandScript.Flow.Loop
import CommandScript.Keyword
import CommandScript.Option
import CommandScript.Store.Variable

/-!
# Commands

What a line of a script becomes. The arguments are read and checked for type, but references stay
unevaluated until the command runs.
-/

namespace CommandScript

/-- The right-hand side of `SET`, whose form the type of the target decides. -/
inductive RightSide where
  | number (f : Formula)
  | truth (c : Condition)
  | text (a : Argument)
  /-- An array to copy or add, or one entry to add. -/
  | entries (a : Argument)
  deriving DecidableEq

/-- What `FILTER` does to an array. -/
inductive FilterSpec where
  /-- Remove the entries that are filtered out. -/
  | apply
  | number (r : Relation) (f : Formula)
  | text (inverted : Bool) (anchor : Anchor) (a : Argument)
  deriving DecidableEq

inductive Command where
  | allocate (scope : Scope) (type : ValueType) (names : List String)
  | set (target : String) (op : AssignOp) (right : RightSide)
  | setRandom (modulus : Formula)
  | print (a : Argument)
  | run (options : List ScriptOption)
  | if_ (c : Condition)
  | elseIf (c : Condition)
  | else_
  | endIf
  | for_ (id : LoopId)
  | next (id : LoopId)
  | skip (id : LoopId)
  | skipIf (id : LoopId) (c : Condition)
  | break_ (id : LoopId)
  | breakIf (id : LoopId) (c : Condition)
  | endFor (id : LoopId)
  /-- Met in sequence, a subroutine is passed over; `last` is its `ENDSUB`. -/
  | sub (name : String) (last : Nat)
  | endSub
  /-- The `target` is the `SUB` command. -/
  | gosub (name : String) (target : Nat)
  | return_ (a : Option Argument)
  | endMain
  | exit
  | insert (array : String) (index : Bound) (item : Argument)
  | append (array : String) (item : Argument)
  | modify (array : String) (index : Bound) (item : Argument)
  | remove (array : String) (index : Index)
  | truncate (array : String) (count : Formula)
  | pop (array : String) (count : Formula)
  | clear (name : String)
  | filter (array : String) (spec : FilterSpec)
  | reset (array : String)
  | fileOpen (path : Argument) (mode : Files.Mode)
  | fileCreate (path : Argument)
  | fileClose
  | fileRead (count : Option Formula)
  | fileWrite (text : Argument)
  | fileExists (path : Argument) (check : Files.PathCheck)
  | fileSize (path : Argument)
  | fileLines (path : Argument)
  | fileDelete (path : Argument)
  | changeDirectory (path : Argument)
  | makeDirectory (path : Argument)
  | removeDirectory (path : Argument)
  | directory (path : Argument) (wanted : Files.Selection)
  | scan (path : Argument)
  deriving DecidableEq

namespace Command

/-- The keyword that the command is written with. -/
def keyword : Command → Keyword
  | allocate .. => .allocate
  | set .. | setRandom _ => .set
  | print _ => .print
  | run _ => .run
  | if_ _ => .if_
  | elseIf _ => .elseIf
  | else_ => .else_
  | endIf => .endIf
  | for_ _ => .for_
  | next _ => .next
  | skip _ => .skip
  | skipIf .. => .skipIf
  | break_ _ => .break_
  | breakIf .. => .breakIf
  | endFor _ => .endFor
  | sub .. => .sub
  | endSub => .endSub
  | gosub .. => .gosub
  | return_ _ => .return_
  | endMain => .endMain
  | exit => .exit
  | insert .. => .insert
  | append .. => .append
  | modify .. => .modify
  | remove .. => .remove
  | truncate .. => .truncate
  | pop .. => .pop
  | clear _ => .clear
  | filter .. => .filter
  | reset _ => .reset
  | fileOpen .. => .fileOpen
  | fileCreate _ => .fileCreate
  | fileClose => .fileClose
  | fileRead _ => .fileRead
  | fileWrite _ => .fileWrite
  | fileExists .. => .fileExists
  | fileSize _ => .fileSize
  | fileLines _ => .fileLines
  | fileDelete _ => .fileDelete
  | changeDirectory _ => .changeDirectory
  | makeDirectory _ => .makeDirectory
  | removeDirectory _ => .removeDirectory
  | directory .. => .directory
  | scan _ => .scan

end Command

end CommandScript
