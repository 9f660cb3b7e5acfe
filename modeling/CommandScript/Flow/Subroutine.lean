import CommandScript.Flow.Chain

/-!
# Subroutines

The lines of a subroutine are known after the first walk over a script, its commands after the
second. The table keeps subroutines in the order of their names.
-/

namespace CommandScript

structure Subroutine where
  name : String
  startLine : Nat
  endLine : Option Nat := none
  startIndex : Option Nat := none
  endIndex : Option Nat := none
  /-- The commands that call the subroutine. -/
  calls : List Nat := []
  deriving DecidableEq, Repr

abbrev SubroutineTable := List Subroutine

namespace SubroutineTable

def get? (t : SubroutineTable) (name : String) : Option Subroutine :=
  t.find? fun s => s.name == name

def contains (t : SubroutineTable) (name : String) : Bool :=
  (t.get? name).isSome

/-- Puts a subroutine in front of the first one with a later name. -/
def insert (s : Subroutine) : SubroutineTable → SubroutineTable
  | [] => [s]
  | t :: rest => if s.name < t.name then s :: t :: rest else t :: insert s rest

/-- Adds a subroutine that begins on a line. -/
def declare (t : SubroutineTable) (name : String) (line : Nat) : Checked SubroutineTable :=
  match t.get? name with
  | some s => .fail .compile s!"subroutine {name} is already defined at line {s.startLine}"
  | none => .ok (insert { name, startLine := line } t)

def get (t : SubroutineTable) (name : String) : Checked Subroutine :=
  match t.get? name with
  | some s => .ok s
  | none => .fail .compile s!"subroutine {name} is not defined"

/-- Changes the subroutine of a name. -/
def update (t : SubroutineTable) (name : String) (f : Subroutine → Subroutine) :
    SubroutineTable :=
  t.map fun s => if s.name = name then f s else s

/-- The index of the `SUB` command. -/
def startIndex (t : SubroutineTable) (name : String) : Checked Nat := do
  match (← t.get name).startIndex with
  | some i => return i
  | none => missingEntry s!"start of subroutine {name}"

/-- The subroutines whose end was never seen. -/
def unclosed (t : SubroutineTable) : List Subroutine :=
  t.filter fun s => s.endLine.isNone

end SubroutineTable

/-- A call in progress: the command that called and the subroutine that runs. -/
structure Frame where
  callIndex : Nat
  subroutine : String
  deriving DecidableEq, Repr

end CommandScript
