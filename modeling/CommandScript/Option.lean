import CommandScript.Numeral
import CommandScript.Text.Quoted
import CommandScript.Text.Shown

/-!
# Script options

Options set the log mask, the directory that paths start from and the file that takes a copy of the
output. They stand on a `RUN` line, on a line of their own or between `STARTUP` and `ENDSTARTUP`.
-/

namespace CommandScript

open Text

inductive ScriptOption where
  | debug (mask : UInt32)
  | testPath (directory : String)
  | outputFile (path : String)
  deriving DecidableEq, Repr

namespace ScriptOption

/-- The option as the log shows it. -/
def shown : ScriptOption → String
  | debug mask => s!"Debug(DebugMask({mask}))"
  | testPath directory => s!"TestPath({Text.shown directory})"
  | outputFile path => s!"OutputFile({Text.shown path})"

/-- A path is given plainly or as a quoted literal. -/
def readPath (token : String) : Checked String :=
  if token.toList.head? == some '"' then readLiteral token else .ok token

/-- The options that a flag and its value stand for. -/
def makers : List (String × (String → Checked ScriptOption)) :=
  [("-DEBUG", fun v => debug <$> Numeral.readUnsigned v),
    ("-TPATH", fun v => testPath <$> readPath v),
    ("-OFILE", fun v => outputFile <$> readPath v)]

/-- Reads flags, each followed by its value. -/
def readList : List String → Checked (List ScriptOption)
  | [] => .ok []
  | flag :: rest =>
    match lookupWord makers flag with
    | some make =>
      match rest with
      | [] => .fail .malformed s!"option {flag} needs a value"
      | value :: more => do
        let o ← make value
        return o :: (← readList more)
    | none =>
      if flag.toList.head? == some '-' then .fail .compile s!"unknown option '{flag}'"
      else .fail .malformed s!"expected an option, found '{flag}'"

/-- Reads the options of one line, of which there is one at least. -/
def read (tokens : List String) : Checked (List ScriptOption) := do
  match ← readList tokens with
  | [] => Checked.fail .malformed "RUN needs at least one option"
  | options => return options

end ScriptOption

end CommandScript
