import CommandScript.Engine.Run
import CommandScript.Proofs.Engine.Plain
import CommandScript.Proofs.Structure.Tree

/-!
# The meaning of a tree

What a program means when it is read as a tree, without jumps and without a next command. Branches,
loops and calls are executed by recursion; a loop goes on or is left and a call ends by way of a
`Stop` that the construct around it takes in. Calls and loops in progress are the place where a block
is executed. A number of steps bounds the commands that an execution may come to, so that executions
can be compared before they end.
-/

namespace CommandScript

/-- What happens in an execution. -/
inductive Event where
  /-- The execution comes to the command. -/
  | reached (index : Nat)
  /-- The condition of the command is evaluated. -/
  | evaluated (index : Nat) (outcome : Bool)
  deriving DecidableEq

/-- Why a block is not executed to its end. -/
inductive Stop where
  /-- A command goes on with the innermost loop. -/
  | again (entry : Entry)
  /-- The innermost loop is left. -/
  | left
  /-- The innermost call ends. -/
  | returned
  /-- The program ends. -/
  | finished
  | failed (f : Fault)
  /-- There are no steps left. -/
  | out

/-- How far an execution is. The calls, chains, loops and the next command of `world` mean nothing. -/
structure Progress where
  world : Engine
  /-- How many more commands it may come to. -/
  steps : Nat
  events : List Event := []

abbrev Structured := ExceptT Stop (StateM Progress)

/-- The calls in progress, and the loops in progress in the innermost call. -/
structure Place where
  calls : List Frame := []
  loops : List ActiveLoop := []

namespace Place

def depth (place : Place) : Nat := place.calls.length

/-- What commands see at a place. -/
def view (place : Place) (world : Engine) : Engine :=
  { world with calls := place.calls, loops := place.loops }

/-- The place in the body of a loop. -/
def inside (place : Place) (id : LoopId) (v : Int64) : Place :=
  { place with loops := ⟨place.depth, id, v⟩ :: place.loops }

/-- The place in the body of a subroutine. -/
def called (place : Place) (frame : Frame) : Place where
  calls := frame :: place.calls

end Place

/-! ### Commands -/

def note (event : Event) : Structured Unit :=
  modify fun r => { r with events := r.events ++ [event] }

def spend : Structured Unit := do
  let r ← get
  match r.steps with
  | 0 => throw .out
  | steps + 1 => set { r with steps }

def reach (entry : Entry) : Structured Unit := do
  spend
  note (.reached entry.index)

/-- Does at a place what a command does. -/
def perform {α : Type} (entry : Entry) (place : Place) (action : EngineM α) : Structured α := do
  let r ← get
  match action.run (place.view r.world) with
  | (.ok a, world) => do
    set { r with world }
    return a
  | (.error f, world) => do
    set { r with world := (world.stopOn entry f).2 }
    throw (.failed (world.stopOn entry f).1)

def judge (entry : Entry) (place : Place) (c : Condition) : Structured Bool := do
  let b ← perform entry place (Engine.truth c)
  note (.evaluated entry.index b)
  return b

/-- Ends the program at an index. If what waits for a file is refused then, this is the fault of no
command. -/
def quit (index : Nat) : Structured Unit := do
  let r ← get
  match Engine.finish.run { r.world with next := index } with
  | (.ok (), world) => do
    set { r with world }
    throw .finished
  | (.error f, world) => do
    set { r with world }
    throw (.failed f)

/-- What a call that ends leaves. -/
def answer (frame : Frame) (v : Option String) : EngineM Unit := do
  if let some v := v then
    Engine.onCells fun cells => { cells with returned := v }
  modify fun e =>
    e.report .program s!"return from {frame.subroutine} to command {frame.callIndex + 1}"

def endCall (entry : Entry) (place : Place) (v : Option String) : Structured Unit :=
  match place.calls with
  | [] => perform entry place (Engine.failRuntime "return outside subroutine")
  | frame :: _ => do
    perform entry place (answer frame v)
    throw .returned

/-- A command that is no bracket; `call` executes a subroutine. -/
def Entry.play (entry : Entry) (call : Entry → Place → String → Structured Unit) (place : Place) :
    Structured Unit := do
  reach entry
  match entry.command with
  | .next _ | .skip _ => throw (.again entry)
  | .skipIf _ c => do
    if ← judge entry place c then throw (.again entry)
  | .break_ _ => throw .left
  | .breakIf _ c => do
    if ← judge entry place c then throw .left
  | .gosub name _ => call entry place name
  | .return_ none => endCall entry place none
  | .return_ (some a) => do
    let v ← perform entry place (Engine.text a)
    endCall entry place (some v)
  | .endMain | .exit => quit entry.index
  | _ => do
    let _ ← perform entry place (Engine.execute entry)

/-! ### Branches -/

/-- A branch that may be taken; one without a condition always is. -/
def branch (marker : Entry) (place : Place) (condition : Option Condition)
    (taken other : Structured Unit) : Structured Unit := do
  reach marker
  let holds ← match condition with
    | none => pure true
    | some c => judge marker place c
  if holds then taken else other

/-- Behind a branch that was taken the next arm is come to and passed over with all the others. -/
def Arms.pass : Arms → Structured Unit
  | .ending entry => reach entry
  | .arm _ marker _ arms => do
    reach marker
    reach arms.last

/-! ### Loops -/

/-- The formulas of a loop. -/
def formulas (id : LoopId) : EngineM Loop := do
  (← get).program.loops.loop id

/-- The value of a loop variable after a turn. -/
def advanced (id : LoopId) (l : Loop) (v : Int64) : EngineM Int64 := do
  let step ← Engine.number l.step
  if step = 0 then
    Engine.failRuntime s!"loop {id.name} has a zero step"
  else match int64? (v.toInt + step.toInt) with
    | none => throw (.cause .range s!"loop {id.name} overflowed")
    | some v => return v

/-- The turns of a loop whose variable was brought to `v` by the command of `entry`. Every turn comes
to a command, so `fuel` need only be more than the steps that are left. -/
def turns (id : LoopId) (l : Loop) (body : Place → Structured Unit) (ending : Entry)
    (place : Place) : Nat → Entry → Int64 → Structured Unit
  | 0, _, _ => throw .out
  | fuel + 1, entry, v => do
    let stop ← perform entry (place.inside id v) (Engine.number l.stop)
    if l.test.holds (compare v.toInt stop.toInt) then
      let entry ← tryCatch (do body (place.inside id v); reach ending; return ending) fun
        | .again entry => pure entry
        | s => throw s
      let v ← perform entry (place.inside id v) (advanced id l v)
      turns id l body ending place fuel entry v

def playLoop (id : LoopId) (opening ending : Entry) (body : Place → Structured Unit)
    (place : Place) : Structured Unit := do
  reach opening
  let l ← perform opening place (formulas id)
  let start ← perform opening place (Engine.number l.start)
  let fuel := (← get).steps + 1
  tryCatch (turns id l body ending place fuel opening start) fun
    | .left => pure ()
    | s => throw s

/-! ### Blocks -/

mutual

def Block.play (call : Entry → Place → String → Structured Unit) :
    Block → Place → Structured Unit
  | .nil, _ => pure ()
  | .command entry rest, place => do
    entry.play call place
    rest.play call place
  | .chain c opening body arms rest, place => do
    branch opening place (some c) (do body.play call place; arms.pass) (arms.play call place)
    rest.play call place
  | .loop id opening body ending rest, place => do
    playLoop id opening ending (fun inner => body.play call inner) place
    rest.play call place
  | .sub _ opening _ _ rest, place => do
    reach opening
    rest.play call place

/-- The arms of a chain of which no branch was taken yet. -/
def Arms.play (call : Entry → Place → String → Structured Unit) :
    Arms → Place → Structured Unit
  | .ending entry, _ => reach entry
  | .arm c marker body arms, place =>
    branch marker place c (do body.play call place; arms.pass) (arms.play call place)

end

/-- Executes a subroutine of the tree, which every call does that a program contains. A call is a
step of its own, so `fuel` need only be as many as the steps that are left. -/
def Block.call (t : Block) : Nat → Entry → Place → String → Structured Unit
  | 0, _, _, _ => throw .out
  | fuel + 1, entry, place, name =>
    match t.sub? name with
    | none => throw .out
    | some (body, ending) => do
      let inner := place.called ⟨entry.index, name⟩
      perform entry inner
        (modify fun e => e.report .program s!"GOSUB {name} (depth {inner.depth})")
      tryCatch (do body.play (t.call fuel) inner; reach ending; endCall ending inner none) fun
        | .returned => pure ()
        | s => throw s

/-- What can be seen of an execution. -/
structure Course where
  events : List Event
  fault : Option Fault
  /-- What it left behind: variables, output, files and how the run stands. -/
  data : Engine

/-- The course of the tree of a program in a number of steps, from the beginning. -/
def Block.course (t : Block) (steps : Nat) (e : Engine) : Course :=
  let all : Structured Unit := do
    t.play (t.call steps) {}
    -- behind the last command
    spend
    quit t.entries.length
  match all.run { world := e, steps } with
  | (.error (.failed f), r) => ⟨r.events, some f, r.world.data⟩
  | (_, r) => ⟨r.events, none, r.world.data⟩

end CommandScript
