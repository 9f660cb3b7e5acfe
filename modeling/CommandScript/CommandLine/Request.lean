import CommandScript.CommandLine.Help
import CommandScript.Numeral
import CommandScript.Text.Blank

/-!
# Requests

What the arguments of a call ask for. The first argument names the task; the others are read one by
one into a draft of the request. Arguments that make no request end the call, and so does a wish for
help as soon as it is met.
-/

namespace CommandScript.CommandLine

open Text

/-- Why the arguments make no request. -/
inductive NoRequest where
  | misused
  | help (topic : Topic)
  deriving DecidableEq, Repr

/-- A task and what was given for it so far. -/
structure Draft where
  task : Task
  file : Option String := none
  config : Option String := none
  /-- Settings as they were written, in order. -/
  settings : List String := []
  verbose : Bool := false
  controlled : Bool := false
  paused : Bool := false
  seed : Option UInt64 := none
  /-- The flag whose value comes next. -/
  awaiting : Option Flag := none
  /-- The arguments that follow are no flags. -/
  isPlain : Bool := false

structure Request where
  task : Task
  file : String
  config : Option String
  settings : List String
  verbose : Bool
  controlled : Bool
  paused : Bool
  seed : Option UInt64
  controlled_of_paused : paused = true → controlled = true

namespace Draft

/-- Fills a place that must be empty. -/
def once (place : Option α) (a : α) : Except NoRequest (Option α) :=
  match place with
  | none => .ok (some a)
  | some _ => .error .misused

/-- Raises a mark that must not be raised yet. -/
def mark (raised : Bool) : Except NoRequest Bool :=
  if raised then .error .misused else .ok true

/-- A path is not empty. -/
def path (text : String) : Except NoRequest String :=
  if text.isEmpty then .error .misused else .ok text

def seedOf (text : String) : Except NoRequest UInt64 :=
  match Numeral.natural? text.toList with
  | some n => .ok (UInt64.ofNat n)
  | none => .error .misused

def withFile (d : Draft) (text : String) : Except NoRequest Draft := do
  return { d with file := ← once d.file (← path text) }

/-- Takes in a flag that has no value. -/
def withMark (d : Draft) : Flag → Except NoRequest Draft
  | .verbose => do return { d with verbose := ← mark d.verbose }
  | .controlled => do return { d with controlled := ← mark d.controlled }
  | .paused => do return { d with paused := ← mark d.paused }
  | .help => .error (.help (.task d.task))
  | _ => .error .misused

/-- Takes in a flag with its value. -/
def withValue (d : Draft) (f : Flag) (text : String) : Except NoRequest Draft :=
  let d := { d with awaiting := none }
  match f with
  | .config => do return { d with config := ← once d.config (← path text) }
  | .setting => .ok { d with settings := d.settings ++ [text] }
  | .seed => do return { d with seed := ← once d.seed (← seedOf text) }
  | _ => .error .misused

/-- Takes in a long form, with a value behind `=` where there is one. -/
def withLong (d : Draft) (word : List Char) : Except NoRequest Draft :=
  let (name, value) := match cutAtMark '=' word with
    | some (name, value) => (name, some (String.ofList value))
    | none => (word, none)
  match Flag.ofLong? d.task.flags (String.ofList name) with
  | none => .error .misused
  | some f =>
    match f.value?, value with
    | some _, some text => d.withValue f text
    | some _, none => .ok { d with awaiting := some f }
    | none, some _ => .error .misused
    | none, none => d.withMark f

/-- Takes in a row of short forms. What follows a flag that takes a value is the value. -/
def withShorts (d : Draft) : List Char → Except NoRequest Draft
  | [] => .ok d
  | c :: rest =>
    match Flag.ofShort? d.task.flags c with
    | none => .error .misused
    | some f =>
      match f.value?, rest with
      | none, rest => do (← d.withMark f).withShorts rest
      | some _, [] => .ok { d with awaiting := some f }
      | some _, '=' :: value => d.withValue f (String.ofList value)
      | some _, value => d.withValue f (String.ofList value)

/-- A lone minus is no flag. -/
def looksLikeFlag (arg : String) : Bool :=
  match arg.toList with
  | '-' :: _ :: _ => true
  | _ => false

/-- Takes in one argument. -/
def read (d : Draft) (arg : String) : Except NoRequest Draft :=
  match d.awaiting with
  | some f => if d.isPlain || looksLikeFlag arg then .error .misused else d.withValue f arg
  | none =>
    if d.isPlain then d.withFile arg
    else match arg.toList with
      | ['-', '-'] => .ok { d with isPlain := true }
      | '-' :: '-' :: word => d.withLong word
      | '-' :: c :: rest => d.withShorts (c :: rest)
      | _ => d.withFile arg

/-- The request that a draft has become. -/
def request (d : Draft) : Except NoRequest Request :=
  match d.awaiting, d.file with
  | none, some file =>
    if h : d.paused = true → d.controlled = true then
      .ok {
        task := d.task
        file
        config := d.config
        settings := d.settings
        verbose := d.verbose
        controlled := d.controlled
        paused := d.paused
        seed := d.seed
        controlled_of_paused := h }
    else .error .misused
  | _, _ => .error .misused

end Draft

namespace Request

/-- The topic that follows the word `help`. -/
def helpTopic : List String → NoRequest
  | [] => .help .overview
  | ["help"] => .help .help
  | [word] =>
    match Task.ofWord? word with
    | some t => .help (.task t)
    | none => .misused
  | _ => .misused

/-- What an argument asks for that stands where a task should. -/
def withoutTask (word : String) : NoRequest :=
  match word.toList with
  | '-' :: 'h' :: _ => .help .overview
  | _ => if word = "--help" then .help .overview else .misused

def read : List String → Except NoRequest Request
  | [] => .error .misused
  | word :: rest =>
    match Task.ofWord? word with
    | some task => do (← rest.foldlM Draft.read { task }).request
    | none => .error (if word = "help" then helpTopic rest else withoutTask word)

end Request

end CommandScript.CommandLine
