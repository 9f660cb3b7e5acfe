import CommandScript.Command
import CommandScript.Flow.Subroutine
import CommandScript.Store

/-!
# Programs

A compiled script: its commands in order, the tables that jumps are looked up in, and the store with
all variables allocated. Jumps name commands by their index.
-/

namespace CommandScript

/-- A command with its place in the program and the line that it came from. -/
structure Entry where
  index : Nat
  line : Nat
  text : String
  command : Command
  deriving DecidableEq

namespace Entry

/-- A number in a column of four. -/
def column (n : Nat) : String :=
  String.ofList ((toString n).toList.leftpad 4 ' ')

def toText (e : Entry) : String :=
  s!"{column e.index} [{column e.line}] {e.text}"

end Entry

structure Program where
  commands : Array Entry
  chains : ChainTable := {}
  loops : LoopTable := []
  subroutines : SubroutineTable := []
  store : Store
  /-- The options that are applied before the first command. -/
  startup : List ScriptOption := []

namespace Program

def size (p : Program) : Nat := p.commands.size

/-- One line for each command. -/
def listing (p : Program) : String :=
  String.join (p.commands.toList.map fun e => e.toText ++ "\n")

end Program

end CommandScript
