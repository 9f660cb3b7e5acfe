/-!
# Flags and help

The tasks that the command line knows and the flags that they take. A flag has a long form, perhaps
a short one, and it may take a value.
-/

namespace CommandScript.CommandLine

inductive Task where
  /-- Compile a script and run it. -/
  | run
  /-- Compile a script and report all its faults. -/
  | check
  /-- Compile a script and list its commands. -/
  | list
  deriving DecidableEq, Repr

inductive Flag where
  /-- The file to take the settings from. -/
  | config
  /-- One setting, as a key and its value. -/
  | setting
  /-- Tell more of what is done. -/
  | verbose
  /-- Take control commands from the input. -/
  | controlled
  /-- Start paused. -/
  | paused
  /-- Where the random numbers start. -/
  | seed
  /-- Only show what can be asked for. -/
  | help
  deriving DecidableEq, Repr

namespace Task

def all : List Task := [run, check, list]

def word : Task → String
  | run => "run"
  | check => "check"
  | list => "list"

def ofWord? (word : String) : Option Task :=
  all.find? fun t => t.word == word

def title : Task → String
  | run => "Compile and run a script"
  | check => "Compile a script and report every problem found"
  | list => "Print the compiled command list"

/-- The flags that a task takes, in the order they are explained in. -/
def flags : Task → List Flag
  | run => [.config, .setting, .verbose, .controlled, .paused, .seed, .help]
  | check | list => [.config, .setting, .verbose, .help]

end Task

namespace Flag

def long : Flag → String
  | config => "config"
  | setting => "set"
  | verbose => "verbose"
  | controlled => "control-stdin"
  | paused => "paused"
  | seed => "seed"
  | help => "help"

def short? : Flag → Option Char
  | config => some 'c'
  | verbose => some 'v'
  | help => some 'h'
  | _ => none

/-- What the value of the flag is called, if it takes one. -/
def value? : Flag → Option String
  | config => some "CONFIG"
  | setting => some "SET"
  | seed => some "SEED"
  | _ => none

def title : Flag → String
  | config => "TOML configuration file"
  | setting => "Override one configuration key (format: KEY=VALUE, e.g. test_path=./data)"
  | verbose => "Enable verbose tracing on stderr"
  | controlled => "Read control commands from stdin while the script runs"
  | paused => "Start paused; requires --control-stdin"
  | seed => "Seed for $RANDOM"
  | help => "Print help"

/-- The flag among `flags` with a long form. -/
def ofLong? (flags : List Flag) (word : String) : Option Flag :=
  flags.find? fun f => f.long == word

/-- The flag among `flags` with a short form. -/
def ofShort? (flags : List Flag) (c : Char) : Option Flag :=
  flags.find? fun f => f.short? == some c

end Flag

/-!
## Help

The pages that explain the command line. A page has a title, the form of a call and tables; the
right column of a table begins two places behind its widest entry on the left.
-/

/-- What help was asked for. -/
inductive Topic where
  | overview
  | task (t : Task)
  | help
  deriving DecidableEq, Repr

namespace Help

/-- The name that the program is called by. -/
def programName : String := "order-reader"

structure Table where
  heading : String
  rows : List (String × String)

def widest (rows : List (String × String)) : Nat :=
  (rows.map fun r => r.1.length).foldl max 0

def row (width : Nat) (r : String × String) : String :=
  let left := String.ofList (r.1.toList.rightpad width ' ')
  s!"  {left}  {r.2}\n"

def Table.toText (t : Table) : String :=
  s!"\n{t.heading}:\n" ++ String.join (t.rows.map (row (widest t.rows)))

def page (title call : String) (tables : List Table) : String :=
  s!"{title}\n\nUsage: {programName} {call}\n" ++ String.join (tables.map Table.toText)

/-- The forms of a flag, the short one first, with the name of its value. -/
def forms (f : Flag) : String :=
  let short := match f.short? with
    | some c => s!"-{c}, "
    | none => "    "
  let value := match f.value? with
    | some name => s!" <{name}>"
    | none => ""
  s!"{short}--{f.long}{value}"

def options (flags : List Flag) : Table where
  heading := "Options"
  rows := flags.map fun f => (forms f, f.title)

def helpTitle : String := "Print this message or the help of the given subcommand(s)"

def commands : Table where
  heading := "Commands"
  rows := (Task.all.map fun t => (t.word, t.title)) ++ [("help", helpTitle)]

end Help

open Help in
/-- The page for a topic. -/
def Topic.page : Topic → String
  | overview =>
    Help.page "Order reader command-script interpreter" "<COMMAND>" [commands, options [.help]]
  | task t =>
    Help.page t.title s!"{t.word} [OPTIONS] <FILE>"
      [⟨"Arguments", [("<FILE>", "Script file")]⟩, options t.flags]
  | help =>
    Help.page helpTitle "help [COMMAND]..."
      [⟨"Arguments", [("[COMMAND]...", "Print help for the subcommand(s)")]⟩]

end CommandScript.CommandLine
