import CommandScript.Flow.Subroutine
import CommandScript.Keyword
import CommandScript.Memory
import CommandScript.Option
import CommandScript.Script.Findings

/-!
# Declarations

The first walk over a script. It allocates the globals, notes the lines of each subroutine and takes
in the options between `STARTUP` and `ENDSTARTUP`, so that a command may use a global or call a
subroutine that stands further down.
-/

namespace CommandScript.Script

structure Declarations where
  memory : Memory
  findings : Findings
  subroutines : SubroutineTable := []
  startup : List ScriptOption := []
  /-- The subroutine that the next line belongs to. -/
  current : Option String := none
  /-- The line of a `STARTUP` that is not ended yet. -/
  startupLine : Option Nat := none
  startupSeen : Bool := false
  endMainLine : Option Nat := none
  /-- The first call of each name. -/
  calls : Assoc String Nat := []

abbrev DeclarationM := ExceptT Fault (StateM Declarations)

/-- The scope, type and names that an `ALLOCATE` gives. -/
def readAllocation (rest : String) : Checked (Scope × ValueType × List String) := do
  match ← Text.splitArguments rest with
  | scope :: type :: name :: names =>
    let scope ← Scope.ofWord scope
    let type ← ValueType.ofWord type
    match (name :: names).find? fun n => !isValidName n with
    | some bad => Checked.fail .malformed s!"invalid variable name '{bad}'"
    | none => return (scope, type, name :: names)
  | _ => Checked.fail .malformed "ALLOCATE needs a scope, a type and at least one name"

/-- The name behind `SUB` or `GOSUB`. -/
def readSubName (keyword : Keyword) (rest : String) : Checked String :=
  if isValidName rest then .ok rest
  else .fail .malformed s!"{keyword} needs a subroutine name, found '{rest}'"

namespace Declarations

/-- The owner of variables allocated on the next line. -/
def owner (d : Declarations) : String :=
  d.current.getD mainOwner

/-- Allocates globals one after the other; those before a fault stay. -/
def allocateAll (type : ValueType) (owner : String) : List String → DeclarationM Unit
  | [] => return ()
  | name :: rest => do
    let memory ← (← get).memory.allocate .global type name owner
    modify fun d => { d with memory }
    allocateAll type owner rest

/-- Takes in one option of the startup block. -/
def addOption (d : Declarations) (o : ScriptOption) : Declarations :=
  let log := match o with
    | .debug mask => d.memory.log.withMask mask
    | _ => d.memory.log
  let log := log.add .props s!"startup option {o.shown}"
  { d with memory := { d.memory with log }, startup := d.startup ++ [o] }

/-- A line between `STARTUP` and `ENDSTARTUP`. -/
def startupOptions (text : List Char) : DeclarationM Unit := do
  let (word, rest) := Keyword.split text
  let take (arguments : List Char) : DeclarationM Unit := do
    let options ← ScriptOption.read (← Text.splitArguments (String.ofList arguments))
    modify fun d => options.foldl addOption d
  if Line.isOption text then take text
  else match Keyword.ofWord? (String.ofList word) with
    | some .endStartup => modify fun d => { d with startupLine := none }
    | some .run => take rest
    | _ =>
      throw (.cause .compile
        s!"only option lines are allowed inside STARTUP, found '{String.ofList word}'")

/-- What a keyword declares. -/
def declare (number : Nat) (keyword : Keyword) (rest : String) : DeclarationM Unit := do
  let d ← get
  match keyword with
  | .allocate =>
    let (scope, type, names) ← readAllocation rest
    if scope = .global then
      allocateAll type d.owner names
  | .endMain =>
    if let some name := d.current then
      throw (endMainInside name)
    if let some line := d.endMainLine then
      throw (.cause .compile s!"ENDMAIN already appears at line {line}")
    set { d with endMainLine := some number }
  | .sub =>
    let name ← readSubName keyword rest
    if let some outer := d.current then
      throw (nestedSub name outer)
    let subroutines ← d.subroutines.declare name number
    set { d with subroutines, current := some name }
  | .endSub =>
    match d.current with
    | none => throw endSubWithoutSub
    | some name =>
      let subroutines := d.subroutines.update name fun s => { s with endLine := some number }
      set { d with subroutines, current := none }
  | .gosub =>
    let name ← readSubName keyword rest
    if !d.calls.contains name then
      set { d with calls := d.calls.put name number }
  | .startup =>
    if d.current.isSome then
      throw (.cause .compile "STARTUP inside a subroutine")
    if d.startupSeen then
      throw (.cause .compile "only one STARTUP block is allowed")
    set { d with startupSeen := true, startupLine := some number }
  | .endStartup => throw endStartupWithoutStartup
  | _ => return ()

/-- Takes in one line. Words that are no keyword are left to the second walk. -/
def line (l : Line) : DeclarationM Unit := do
  let text := l.text.toList
  if (← get).startupLine.isSome then
    startupOptions text
  else if Line.isOption text then
    return ()
  else
    let (word, rest) := Keyword.split text
    match Keyword.ofWord? (String.ofList word) with
    | some keyword => declare l.number keyword (String.ofList rest)
    | none => return ()

/-- Takes in a fault that the walk found. -/
def record (f : Fault) : DeclarationM Unit := do
  let d ← get
  let (findings, log) ← d.findings.record d.memory.log f
  set { d with findings, memory := { d.memory with log } }

/-- Takes in one line and records the fault that it has. -/
def lineOrFault (l : Line) : DeclarationM Unit :=
  tryCatch (line l) fun f => record (f.atLine l.number l.text)

/-- What only the end of the script shows: blocks that were not closed and calls of subroutines that
are not there, in the order of their names. -/
def atEnd (lines : List Line) : DeclarationM Unit := do
  if let some n := (← get).startupLine then
    record (onNumber lines n (.cause .compile "STARTUP has no ENDSTARTUP"))
  for s in (← get).subroutines.unclosed do
    record (onNumber lines s.startLine (unclosedSub s.name))
  let calls := (← get).calls.mergeSort fun a b => decide (a.1 ≤ b.1)
  for (name, n) in calls do
    if !(← get).subroutines.contains name then
      record (onNumber lines n (undefinedSub name))

/-- The whole first walk. -/
def walk (lines : List Line) : DeclarationM Unit := do
  for l in lines do
    lineOrFault l
  atEnd lines
  modify fun d =>
    let message :=
      s!"pass 1: {d.subroutines.length} subroutine(s), {d.startup.length} startup option(s)"
    { d with memory := d.memory.report .compile message }

end Declarations

end CommandScript.Script
