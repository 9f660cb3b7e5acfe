import CommandScript.Command.Reader
import CommandScript.Program
import CommandScript.Script.Declarations

/-!
# Assembly

The second walk over a script. Each line that counts becomes a command; the blocks that are open are
kept on stacks, and chains, loops and subroutines get the indices of their commands. At the end the
calls are joined to the subroutines and an `EXIT` is put behind the last command.
-/

namespace CommandScript

open Script Text

structure Assembly where
  memory : Memory
  findings : Findings
  subroutines : SubroutineTable
  commands : Array Entry := #[]
  chains : ChainTable := {}
  loops : LoopTable := []
  /-- The `IF` commands of the open chains, innermost first. -/
  openChains : List Nat := []
  /-- The open loops, innermost first. -/
  openLoops : List LoopId := []
  current : Option String := none
  inStartup : Bool := false

abbrev AssemblyM := ExceptT Fault (StateM Assembly)

namespace Assembly

def owner (a : Assembly) : String :=
  a.current.getD mainOwner

/-- The index of the command that the next line becomes. -/
def index (a : Assembly) : Nat :=
  a.commands.size

def context (a : Assembly) : Context where
  store := a.memory.store
  owner := a.owner
  loops := a.openLoops

def failCompile (detail : String) : AssemblyM α :=
  throw (.cause .compile detail)

/-! ### Variables -/

/-- Allocates locals one after the other; those before a fault stay. -/
def allocateAll (type : ValueType) : List String → AssemblyM Unit
  | [] => return ()
  | name :: rest => do
    let a ← get
    if a.context.isLoop name then
      throw (.cause .duplicate s!"{name} is an open loop variable")
    let memory ← a.memory.allocate .owned type name a.owner
    set { a with memory }
    allocateAll type rest

def readAllocate (rest : String) : AssemblyM Command := do
  let (scope, type, names) ← readAllocation rest
  if scope = .owned then
    allocateAll type names
  return .allocate scope type names

/-! ### Chains -/

def innermostChain (keyword : Keyword) : AssemblyM Nat := do
  match (← get).openChains with
  | i :: _ => return i
  | [] => failCompile s!"{keyword} without IF"

/-- The chain and this line are inside the same number of loops. -/
def checkChainLevel (a : Assembly) (keyword : Keyword) (ifIndex : Nat) : Checked Unit := do
  let c ← a.chains.chainOf ifIndex
  if c.loopLevel ≠ a.openLoops.length then
    Checked.fail .compile s!"{keyword} and its IF are at different FOR nesting levels"

def beginChain : AssemblyM Unit :=
  modify fun a =>
    { a with
      chains := a.chains.start a.index a.openLoops.length
      openChains := a.index :: a.openChains }

def addBranch (keyword : Keyword) (isElse : Bool) : AssemblyM Unit := do
  let i ← innermostChain keyword
  let a ← get
  a.checkChainLevel keyword i
  let chains ← a.chains.addBranch i a.index isElse
  set { a with chains }

/-- Closes the innermost chain, even where its level is wrong. -/
def endChain : AssemblyM Unit := do
  let i ← innermostChain .endIf
  let a ← get
  let level := a.checkChainLevel .endIf i
  set { a with openChains := a.openChains.tail }
  let chains ← a.chains.finish i a.index
  modify fun a => { a with chains }
  level

/-! ### Loops -/

/-- The three formulas and the relation that a `FOR` gives. -/
structure LoopParts where
  name : String
  start : String
  test : Relation
  stop : String
  step : Option String

/-- The step without the word `STEP` in front. -/
def withoutStep (s : List Char) : List Char :=
  match afterFolded? "STEP".toList s with
  | some rest => trim rest
  | none => s

/-- Cuts the text of a `FOR` into its parts. -/
def readLoopParts (rest : String) : Checked LoopParts := do
  let form : Checked LoopParts :=
    .fail .malformed "FOR needs 'name = start ; name <op> end [; STEP n]'"
  let (head, test, step) ← match (splitAtMark ';' rest.toList).map trim with
    | [head, test] => pure (head, test, none)
    | [head, test, step] => pure (head, test, some (withoutStep step))
    | _ => (fun _ => ([], [], none)) <$> form
  match cutAtMark '=' head with
  | none => Checked.fail .malformed s!"FOR start '{String.ofList head}' needs '='"
  | some (before, start) =>
    let name := String.ofList (trim before)
    if !isValidName name then
      Checked.fail .malformed s!"invalid loop name '{name}'"
    match Relation.find? test with
    | none =>
      Checked.fail .malformed s!"FOR test '{String.ofList test}' needs a relational operator"
    | some (left, relation, stop) =>
      let left := Context.withoutDollar (String.ofList (trim left))
      if !left.isEmpty && left != name then
        Checked.fail .malformed
          s!"FOR test must compare the loop variable {name}, found '{left}'"
      if step == some [] then
        Checked.fail .malformed "missing STEP value"
      return {
        name, start := String.ofList start, test := relation, stop := String.ofList stop
        step := step.map String.ofList }

/-- Opens a loop. Its end and step may read its variable, its start may not. -/
def beginLoop (rest : String) : AssemblyM Command := do
  let parts ← readLoopParts rest
  let a ← get
  let c := a.context
  if c.isLoop parts.name then
    failCompile
      s!"loop {parts.name} is already open; close it with ENDFOR before reusing the name"
  if a.memory.store.isVisible parts.name a.owner then
    failCompile s!"loop name {parts.name} collides with a variable"
  let start ← c.readFormula parts.start
  let id : LoopId := ⟨parts.name, a.index⟩
  let inside := { c with loops := id :: c.loops }
  let stop ← inside.readFormula parts.stop
  let step ← match parts.step with
    | some text => inside.readFormula text
    | none => pure (Formula.literal 1 : Formula)
  let loop : Loop :=
    { id, start, stop, step, test := parts.test, chainLevel := a.openChains.length }
  set { a with loops := a.loops.add loop, openLoops := id :: a.openLoops }
  return .for_ id

def innermostLoop (keyword : Keyword) : AssemblyM LoopId := do
  match (← get).openLoops with
  | id :: _ => return id
  | [] => failCompile s!"{keyword} outside a FOR loop"

/-- Closes the innermost loop, even where its level is wrong. -/
def endLoop : AssemblyM Command := do
  let a ← get
  match a.openLoops with
  | [] => failCompile "ENDFOR without FOR"
  | id :: outer =>
    set { a with openLoops := outer }
    let loops ← a.loops.finish id a.index
    modify fun a => { a with loops }
    let loop ← loops.loop id
    if loop.chainLevel ≠ a.openChains.length then
      failCompile
        s!"ENDFOR of loop {id.name} and its FOR are at different IF nesting levels"
    return .endFor id

/-! ### Subroutines -/

def beginSub (rest : String) : AssemblyM Command := do
  let name ← readSubName .sub rest
  let a ← get
  if let some outer := a.current then
    throw (nestedSub name outer)
  if !a.openChains.isEmpty || !a.openLoops.isEmpty then
    failCompile s!"SUB {name} starts inside an open IF or FOR block"
  let s ← a.subroutines.get name
  if s.startIndex.isSome then
    failCompile s!"subroutine {name} is already defined at line {s.startLine}"
  let subroutines := a.subroutines.update name fun s => { s with startIndex := some a.index }
  set { a with subroutines, current := some name }
  return .sub name 0

/-- Ends the subroutine and drops the blocks that are still open in it. -/
def endSub : AssemblyM Command := do
  let a ← get
  match a.current with
  | none => throw endSubWithoutSub
  | some name =>
    let subroutines := a.subroutines.update name fun s => { s with endIndex := some a.index }
    set { a with subroutines, current := none, openChains := [], openLoops := [] }
    if !a.openChains.isEmpty || !a.openLoops.isEmpty then
      failCompile s!"SUB {name} ends with an open IF or FOR block"
    return .endSub

def readGosub (rest : String) : AssemblyM Command := do
  let name ← readSubName .gosub rest
  let a ← get
  if !a.subroutines.contains name then
    throw (undefinedSub name)
  let subroutines := a.subroutines.update name fun s => { s with calls := s.calls ++ [a.index] }
  set { a with subroutines }
  return .gosub name 0

/-! ### Lines -/

/-- The command that a keyword and the text behind it become; `STARTUP` becomes none. -/
def readKeyword (keyword : Keyword) (rest : String) : AssemblyM (Option Command) := do
  let c := (← get).context
  match keyword with
  | .allocate => some <$> readAllocate rest
  | .if_ =>
    let condition ← c.readCondition rest
    beginChain
    return some (.if_ condition)
  | .elseIf =>
    let condition ← c.readCondition rest
    addBranch keyword false
    return some (.elseIf condition)
  | .else_ =>
    Context.noArguments keyword rest
    addBranch keyword true
    return some .else_
  | .endIf =>
    Context.noArguments keyword rest
    endChain
    return some .endIf
  | .for_ => some <$> beginLoop rest
  | .next =>
    Context.noArguments keyword rest
    return some (.next (← innermostLoop keyword))
  | .skip =>
    Context.noArguments keyword rest
    return some (.skip (← innermostLoop keyword))
  | .skipIf =>
    let id ← innermostLoop keyword
    return some (.skipIf id (← c.readCondition rest))
  | .break_ =>
    Context.noArguments keyword rest
    return some (.break_ (← innermostLoop keyword))
  | .breakIf =>
    let id ← innermostLoop keyword
    return some (.breakIf id (← c.readCondition rest))
  | .endFor =>
    Context.noArguments keyword rest
    some <$> endLoop
  | .sub => some <$> beginSub rest
  | .endSub =>
    Context.noArguments keyword rest
    some <$> endSub
  | .gosub => some <$> readGosub rest
  | .endMain =>
    Context.noArguments keyword rest
    match (← get).current with
    | some name => throw (endMainInside name)
    | none => return some .endMain
  | .startup =>
    Context.noArguments keyword rest
    modify fun a => { a with inStartup := true }
    return none
  | .endStartup => throw endStartupWithoutStartup
  | _ => c.readCommand keyword rest

/-- The command that a line becomes; the lines of the startup block become none. -/
def readLine (text : String) : AssemblyM (Option Command) := do
  let (word, rest) := Keyword.split text.toList
  let word := String.ofList word
  if (← get).inStartup then
    if isWord "ENDSTARTUP" word then
      modify fun a => { a with inStartup := false }
    return none
  if Line.isOption text.toList then
    return some (← Context.readOptions text)
  match Keyword.ofWord? word with
  | some keyword => readKeyword keyword (String.ofList rest)
  | none => throw (.cause .malformed s!"unknown command '{word}'")

def record (f : Fault) : AssemblyM Unit := do
  let a ← get
  let (findings, log) ← a.findings.record a.memory.log f
  set { a with findings, memory := { a.memory with log } }

/-- Puts a command behind the others and reports it. -/
def push (l : Line) (command : Command) : AssemblyM Unit :=
  modify fun a =>
    let entry : Entry := ⟨a.index, l.number, l.text, command⟩
    { a with
      memory := a.memory.report .compile entry.toText
      commands := a.commands.push entry }

/-- Takes in one line and records the fault that it has. -/
def line (l : Line) : AssemblyM Unit :=
  tryCatch
    (do
      if let some command ← readLine l.text then
        push l command)
    fun f => record (f.atLine l.number l.text)

/-! ### The end of the script -/

/-- Records a fault on the line of a command. -/
def recordAt (index : Nat) (f : Fault) : AssemblyM Unit := do
  if let some e := (← get).commands[index]? then
    record (f.atLine e.line e.text)

/-- Records the blocks that were not closed, the outermost first. -/
def recordOpen (lines : List Line) : AssemblyM Unit := do
  let a ← get
  for i in a.openChains.reverse do
    recordAt i (.cause .compile "IF has no ENDIF")
  for id in a.openLoops.reverse do
    recordAt id.index (.cause .compile s!"FOR {id.name} has no ENDFOR")
  if let some name := a.current then
    if let some s := a.subroutines.get? name then
      record (onNumber lines s.startLine (unclosedSub name))

/-- A command with the indices that only the whole script shows. -/
def joined (e : Entry) : AssemblyM Entry := do
  let subroutines := (← get).subroutines
  match e.command with
  | .sub name last =>
    let last := ((subroutines.get? name).bind (·.endIndex)).getD last
    return { e with command := .sub name last }
  | .gosub name _ =>
    match (subroutines.get? name).bind (·.startIndex) with
    | some target => return { e with command := .gosub name target }
    | none =>
      record ((undefinedSub name).atLine e.line e.text)
      return e
  | _ => return e

/-- Records what only the end shows, joins calls to subroutines and puts an `EXIT` at the end. -/
def finish (lines : List Line) : AssemblyM Unit := do
  recordOpen lines
  let commands ← (← get).commands.mapM joined
  let number := match lines.getLast? with
    | some l => l.number + 1
    | none => 1
  modify fun a => { a with commands := commands.push ⟨commands.size, number, "EXIT", .exit⟩ }

/-- The whole second walk. -/
def walk (lines : List Line) : AssemblyM Unit := do
  for l in lines do
    line l
  finish lines
  modify fun a =>
    { a with memory := a.memory.report .compile s!"compiled {a.commands.size} command(s)" }

end Assembly

end CommandScript
