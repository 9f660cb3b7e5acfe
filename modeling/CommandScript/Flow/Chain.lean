import CommandScript.Assoc
import CommandScript.Fault

/-!
# Chains of branches

An `IF`, its `ELSEIF` and `ELSE` branches and its `ENDIF` make up a chain. Commands are named by
their index in the program; every member of a chain leads to it.
-/

namespace CommandScript

/-- A fault for a table that lacks an entry. -/
def missingEntry (what : String) : Checked α :=
  .fail .runtime s!"missing bookkeeping for {what}"

structure Chain where
  ifIndex : Nat
  /-- The `ELSEIF` and `ELSE` commands in order. -/
  branches : List Nat := []
  elseIndex : Option Nat := none
  endIndex : Option Nat := none
  /-- How many loops were open at the `IF`. -/
  loopLevel : Nat
  deriving DecidableEq, Repr

namespace Chain

/-- The branch or `ENDIF` that follows the member `index`. -/
def following (c : Chain) (index : Nat) : Checked Nat :=
  match (c.branches.find? fun b => decide (index < b)).or c.endIndex with
  | some next => .ok next
  | none => missingEntry s!"IF at command {c.ifIndex}"

def ending (c : Chain) : Checked Nat :=
  match c.endIndex with
  | some e => .ok e
  | none => missingEntry s!"ENDIF of IF at command {c.ifIndex}"

end Chain

/-- The chains by the index of their `IF`, and the chain that each member belongs to. -/
structure ChainTable where
  chains : Assoc Nat Chain := []
  members : Assoc Nat Nat := []
  deriving DecidableEq

namespace ChainTable

/-- Begins a chain at an `IF`. -/
def start (t : ChainTable) (index loopLevel : Nat) : ChainTable where
  chains := t.chains.put index { ifIndex := index, loopLevel }
  members := t.members.put index index

/-- Adds an `ELSEIF`, or an `ELSE`, behind which no branch may come. -/
def addBranch (t : ChainTable) (ifIndex index : Nat) (isElse : Bool) : Checked ChainTable :=
  match t.chains.get? ifIndex with
  | none => .fail .compile "ELSE/ELSEIF without IF"
  | some c =>
    if c.elseIndex.isSome then
      let what := if isElse then "a second ELSE" else "ELSEIF after ELSE"
      .fail .compile s!"{what}; ELSE must be the last branch"
    else
      let c := { c with
        branches := c.branches ++ [index]
        elseIndex := if isElse then some index else none }
      .ok { chains := t.chains.put ifIndex c, members := t.members.put index ifIndex }

/-- Ends a chain at an `ENDIF`. -/
def finish (t : ChainTable) (ifIndex index : Nat) : Checked ChainTable :=
  match t.chains.get? ifIndex with
  | none => .fail .compile "ENDIF without IF"
  | some c => .ok
    { chains := t.chains.put ifIndex { c with endIndex := some index }
      members := t.members.put index ifIndex }

/-- The chain that a member belongs to. -/
def chainOf (t : ChainTable) (index : Nat) : Checked Chain :=
  match (t.members.get? index).bind fun i => t.chains.get? i with
  | some c => .ok c
  | none => missingEntry s!"IF chain at command {index}"

def size (t : ChainTable) : Nat := t.chains.length

end ChainTable

end CommandScript
