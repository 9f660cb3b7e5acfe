import CommandScript.Engine

/-!
# Executing a command

Each command does its work and says where the program goes on: with the next command, at another
one, or nowhere.
-/

namespace CommandScript

/-- Where the program goes on. -/
inductive Move where
  | next
  | jump (target : Nat)
  | exit
  deriving DecidableEq, Repr

namespace Engine

def failRuntime (detail : String) : EngineM α :=
  throw (.cause .runtime detail)

/-! ### Assignment -/

/-- The number that a compound assignment gives, the old value being read after the new one. -/
def assignedNumber (target owner : String) (op : AssignOp) (f : Formula) : EngineM Int64 := do
  let new ← number f
  if op = .set then return new
  let old ← (← onMemory (MemoryM.read target owner)).toInteger
  op.combine old new

def assignedTruth (target owner : String) (op : AssignOp) (c : Condition) : EngineM Bool := do
  let new ← truth c
  let old : EngineM Bool := do
    (← onMemory (MemoryM.read target owner)).toBoolean
  match op with
  | .set => return new
  | .and => return (← old) && new
  | .or => return (← old) || new
  | .xor => return (← old) != new
  | _ => throw (.cause .typeMismatch s!"'{op.symbol}' on Boolean {target}")

def assignedText (target owner : String) (op : AssignOp) (a : Argument) : EngineM String := do
  let new ← text a
  if op = .add then
    let old ← onMemory (MemoryM.read target owner)
    return old.toText ++ new
  else return new

/-- Gives the target a value of its type. -/
def store (target owner : String) (v : Value) (line : Nat) : EngineM Unit :=
  onMemory (MemoryM.write target owner v line)

/-- A change of the store that gives nothing back. -/
def change (line : Nat) (f : Stamp → StoreM Unit) : EngineM Unit := do
  let stamp := (← get).memory.stamp line
  onStore (f stamp)

def assign (line : Nat) (target : String) (op : AssignOp) (right : RightSide) :
    EngineM Unit := do
  let e ← get
  let owner := e.owner
  let t ← e.memory.store.typeOf target owner
  match right with
  | .number f =>
    let n ← assignedNumber target owner op f
    if t = .unsigned then store target owner (.unsigned (← Numeral.unsigned n)) line
    else store target owner (.integer n) line
  | .truth c => do
    let b ← assignedTruth target owner op c
    store target owner (.boolean b) line
  | .text a => do
    let s ← assignedText target owner op a
    store target owner (.string s) line
  | .entries a =>
    let v ← value a
    if op = .set then store target owner (← v.convert t) line
    else if v.type.isArray then change line (StoreM.extend target owner v)
    else change line (StoreM.append target owner v)

/-! ### Chains -/

/-- Whether a branch of the chain was taken already. -/
def isTaken (ifIndex : Nat) : EngineM Bool := do
  let e ← get
  match e.taken.get? (e.depth, ifIndex) with
  | some b => return b
  | none => failRuntime s!"missing IF state for command {ifIndex}"

def setTaken (ifIndex : Nat) (b : Bool) : EngineM Unit :=
  modify fun e => { e with taken := e.taken.put (e.depth, ifIndex) b }

def executeIf (index : Nat) (c : Condition) : EngineM Move := do
  let b ← truth c
  setTaken index b
  if b then return .next
  else
    let chain ← (← get).program.chains.chainOf index
    return .jump (← chain.following index)

/-- A branch runs if none before it was taken and its condition holds; an `ELSE` has none. -/
def executeBranch (index : Nat) (c : Option Condition) : EngineM Move := do
  let chain ← (← get).program.chains.chainOf index
  let ending ← chain.ending
  let following ← chain.following index
  if ← isTaken chain.ifIndex then return .jump ending
  let holds ← match c with
    | none => pure true
    | some c => truth c
  if !holds then return .jump following
  setTaken chain.ifIndex true
  return .next

def executeEndIf (index : Nat) : EngineM Move := do
  let e ← get
  let chain ← e.program.chains.chainOf index
  set { e with taken := e.taken.erase (e.depth, chain.ifIndex) }
  return .next

/-! ### Loops -/

/-- The loop runs at a depth of calls. -/
def isRun (depth : Nat) (id : LoopId) (l : ActiveLoop) : Bool :=
  l.depth == depth && l.id == id

/-- Begins a loop, or passes it over if its test fails at once. -/
def beginLoop (id : LoopId) : EngineM Move := do
  let e ← get
  let depth := e.depth
  let loop ← e.program.loops.loop id
  modify fun e => { e with loops := e.loops.filter fun l => !isRun depth id l }
  let start ← number loop.start
  modify fun e => { e with loops := ⟨depth, id, start⟩ :: e.loops }
  let stop ← number loop.stop
  if loop.test.holds (compare start.toInt stop.toInt) then return .next
  modify fun e => { e with loops := e.loops.tail }
  return .jump (← loop.exitIndex)

/-- The running loop, the loops begun after it and those begun before it, innermost first. -/
def findRun (id : LoopId) : EngineM (List ActiveLoop × ActiveLoop × List ActiveLoop) := do
  let e ← get
  let depth := e.depth
  match e.loops.dropWhile fun l => !isRun depth id l with
  | l :: before => return (e.loops.takeWhile fun l => !isRun depth id l, l, before)
  | [] => failRuntime s!"loop {id} is not running"

/-- Moves a loop on by its step and goes through its body once more, or leaves it. -/
def advanceLoop (id : LoopId) : EngineM Move := do
  let (after, run, before) ← findRun id
  let loop ← (← get).program.loops.loop id
  let step ← number loop.step
  if step = 0 then
    failRuntime s!"loop {id.name} has a zero step"
  match int64? (run.value.toInt + step.toInt) with
  | none => throw (.cause .range s!"loop {id.name} overflowed")
  | some v =>
    modify fun e => { e with loops := after ++ { run with value := v } :: before }
    let stop ← number loop.stop
    if loop.test.holds (compare v.toInt stop.toInt) then return .jump loop.bodyIndex
    modify fun e => { e with loops := before }
    return .jump (← loop.exitIndex)

def leaveLoop (id : LoopId) : EngineM Move := do
  let (_, _, before) ← findRun id
  modify fun e => { e with loops := before }
  let loop ← (← get).program.loops.loop id
  return .jump (← loop.exitIndex)

/-! ### Subroutines -/

def call (index : Nat) (name : String) (target : Nat) : EngineM Move := do
  modify fun e => { e with calls := ⟨index, name⟩ :: e.calls }
  modify fun e => e.report .program s!"GOSUB {name} (depth {e.depth})"
  return .jump (target + 1)

/-- Ends the innermost call and forgets the loops and chains inside it. -/
def returnWith (v : Option String) : EngineM Move := do
  let e ← get
  match e.calls with
  | [] => failRuntime "return outside subroutine"
  | frame :: calls =>
    let depth := e.depth
    set { e with
      calls
      loops := e.loops.filter fun l => l.depth != depth
      taken := e.taken.filter fun entry => entry.1.1 != depth }
    if let some v := v then
      onCells fun cells => { cells with returned := v }
    modify fun e =>
      e.report .program s!"return from {frame.subroutine} to command {frame.callIndex + 1}"
    return .jump (frame.callIndex + 1)

/-! ### Arrays -/

/-- A number of entries or lines. -/
def count (n : Int64) : Checked Nat :=
  if n.toInt < 0 then .fail .range s!"count {n} is negative" else .ok n.toInt.toNat

/-- The number of entries or lines that a formula gives. -/
def counted (f : Formula) : EngineM Nat := do
  count (← number f)

def filterArray (line : Nat) (array : String) (spec : FilterSpec) : EngineM Unit := do
  let owner := (← get).owner
  let select (f : Filter) : EngineM Unit := do
    let n ← onStore (StoreM.filter array owner f)
    modify fun e => e.report .vars s!"FILTER {array}: {n} selected"
  match spec with
  | .apply =>
    let stamp := (← get).memory.stamp line
    let n ← onStore (StoreM.applyFilter array owner stamp)
    modify fun e => e.report .vars s!"FILTER {array}: removed {n}"
  | .text inverted anchor a => do
    let t ← text a
    select (.text t anchor inverted)
  | .number r f => do
    let n ← number f
    select (.number r n)

/-- The place and the item that `INSERT` and `MODIFY` take. -/
def indexed (index : Bound) (item : Argument) : EngineM (Nat × Value) :=
  seen fun v => do
    let n ← v.position index
    let item ← item.evaluate v.look
    return (n, item)

/-! ### Files -/

def fileCommand (command : Command) : EngineM Unit := do
  match command with
  | .fileOpen path mode => do
    let path ← text path
    onDesk (Files.Desk.openFile path mode)
  | .fileCreate path => do
    let path ← text path
    onDesk (Files.Desk.create path)
  | .fileClose => onDesk Files.Desk.close
  | .fileRead n =>
    let n ← match n with
      | some f => some <$> counted f
      | none => pure none
    let lines ← onDesk (Files.Desk.readLines n)
    onCells fun cells => { cells with status := !lines.isEmpty, response := lines }
  | .fileWrite a => do
    let line ← text a
    onDesk (Files.Desk.writeLine line)
  | .fileExists path check => do
    let path ← text path
    let b := (← get).desk.passes path check
    onCells fun cells => { cells with status := b }
  | .fileSize path => do
    let path ← text path
    let n ← onDesk (Files.Desk.size path)
    onCells fun cells => { cells with returned := toString n }
  | .fileLines path => do
    let path ← text path
    let n ← onDesk (Files.Desk.lineCount path)
    onCells fun cells => { cells with returned := toString n }
  | .fileDelete path => do
    let path ← text path
    onDesk (Files.Desk.delete path)
  | .changeDirectory path => do
    let path ← text path
    onDesk (Files.Desk.changeDirectory path)
  | .makeDirectory path => do
    let path ← text path
    onDesk (Files.Desk.makeDirectory path)
  | .removeDirectory path => do
    let path ← text path
    onDesk (Files.Desk.removeDirectory path)
  | .directory path wanted => do
    let path ← text path
    let names ← onDesk (Files.Desk.list path wanted)
    onCells fun cells => { cells with status := true, response := names }
  | .scan path => do
    let path ← text path
    let e ← get
    let found ← e.scan (e.desk.resolve path)
    onCells fun cells => { cells with scanned := found }
  | other => failRuntime s!"{other.keyword} is not a file command"

/-! ### All commands -/

/-- Executes a command and goes on with the next one. -/
def andNext (action : EngineM Unit) : EngineM Move := do
  action
  return .next

/-- Changes an array that the subroutine which runs can see. -/
def changeArray (line : Nat) (f : String → Stamp → StoreM Unit) : EngineM Move :=
  andNext do
    let owner := (← get).owner
    change line (f owner)

/-- Executes the command of an entry. -/
def execute (entry : Entry) : EngineM Move := do
  let line := entry.line
  match entry.command with
  | .allocate .. => return .next
  | .set target op right => andNext (assign line target op right)
  | .setRandom f => andNext do
    let modulus ← number f
    onStore (StoreM.withModulus modulus)
  | .print a => andNext do
    let line ← text a
    print line
  | .run options => andNext (applyOptions options)
  | .if_ c => executeIf entry.index c
  | .elseIf c => executeBranch entry.index (some c)
  | .else_ => executeBranch entry.index none
  | .endIf => executeEndIf entry.index
  | .for_ id => beginLoop id
  | .next id | .skip id | .endFor id => advanceLoop id
  | .skipIf id c => do
    let b ← truth c
    if b then advanceLoop id else return .next
  | .break_ id => leaveLoop id
  | .breakIf id c => do
    let b ← truth c
    if b then leaveLoop id else return .next
  | .sub _ last => return .jump (last + 1)
  | .endSub => returnWith none
  | .gosub name target => call entry.index name target
  | .return_ none => returnWith none
  | .return_ (some a) => do
    let v ← text a
    returnWith (some v)
  | .endMain | .exit => return .exit
  | .insert array index item => do
    let (n, v) ← indexed index item
    changeArray line fun owner => StoreM.insert array owner n v
  | .append array item => do
    let v ← value item
    changeArray line fun owner => StoreM.append array owner v
  | .modify array index item => do
    let (n, v) ← indexed index item
    changeArray line fun owner => StoreM.modify array owner n v
  | .remove array index => do
    let (first, last) ← seen fun v => v.positions index
    changeArray line fun owner => StoreM.remove array owner first last
  | .truncate array n => do
    let n ← counted n
    changeArray line fun owner => StoreM.truncate array owner n
  | .pop array n => do
    let n ← counted n
    changeArray line fun owner => StoreM.pop array owner n
  | .clear name => changeArray line (StoreM.clear name)
  | .filter array spec => andNext (filterArray line array spec)
  | .reset array => changeArray line fun owner _ => StoreM.resetFilter array owner
  | command => andNext (fileCommand command)

end Engine

end CommandScript
