import CommandScript.Fault
import CommandScript.Numeral
import CommandScript.Toml.Document

/-!
# Settings

What a run starts with: the log mask, the modulus of random numbers, the directory that paths start
from and the file that takes a copy of the output. Settings come from a TOML document and are read
and set under dotted keys.
-/

namespace CommandScript

structure Settings where
  mask : UInt32 := 0
  randomMax : UInt32 := 1000000
  /-- The longest description of an item that a host records. -/
  maxDescription : Nat := 90
  testPath : String := "."
  outputFile : String := ""
  deriving DecidableEq, Repr

namespace Settings

/-- The value of a key as a text. -/
def get? (s : Settings) (key : String) : Option String :=
  match key with
  | "interpreter.debug_mask" => some s!"0x{String.ofList (Numeral.hexText s.mask.toNat)}"
  | "interpreter.random_max" => some (toString s.randomMax.toNat)
  | "interpreter.max_description_length" => some (toString s.maxDescription)
  | "paths.test_path" => some s.testPath
  | "paths.output_file" => some s.outputFile
  | _ => none

/-- Gives a key a value, which is read from a text. -/
def set (s : Settings) (key value : String) : Checked Settings :=
  match key with
  | "interpreter.debug_mask" => do return { s with mask := ← Numeral.readUnsigned value }
  | "interpreter.random_max" => do return { s with randomMax := ← Numeral.readUnsigned value }
  | "interpreter.max_description_length" => do
    let n ← Numeral.readInteger value
    if n.toInt < 0 then
      Checked.fail .range s!"{key} = {n}"
    return { s with maxDescription := n.toInt.toNat }
  | "paths.test_path" => .ok { s with testPath := value }
  | "paths.output_file" => .ok { s with outputFile := value }
  | _ => .fail .format s!"unknown configuration key '{key}'"

/-- A node as a whole number below a limit. -/
def natural? (limit : Nat) : Toml.Node → Option Nat
  | .scalar (.integer n) => if 0 ≤ n.toInt ∧ n.toInt < limit then some n.toInt.toNat else none
  | _ => none

def text? : Toml.Node → Option String
  | .scalar (.string s) => some s
  | _ => none

/-- A setting, or the default where the document has no node for it. -/
def read? (read : Toml.Node → Option α) (default : α) : Option Toml.Node → Option α
  | none => some default
  | some v => read v

/-- The nodes that a section of a document has for its settings, whose names are given in order. A
table gives them by name, and what has other names is passed over; a list gives them by position. A
date or time stands for a section without settings. -/
def nodes? (names : List String) : Option Toml.Node → Option (List (Option Toml.Node))
  | none | some (.scalar .moment) => some (names.map fun _ => none)
  | some (.braced fields) | some (.table _ fields) => some (names.map fun n => fields.lookup n)
  | some (.list items) => some (names.zipIdx.map fun n => items[n.2]?)
  | some (.tables _) | some (.scalar _) => none

/-- The settings in a document. Other sections are passed over. -/
def ofDocument? (d : Toml.Document) : Option Settings := do
  let interpreter ← nodes? ["debug_mask", "random_max", "max_description_length"]
    (d.root.fields.get? "interpreter")
  let paths ← nodes? ["test_path", "output_file"] (d.root.fields.get? "paths")
  match interpreter, paths with
  | [mask, randomMax, maxDescription], [testPath, outputFile] =>
    return {
      mask := UInt32.ofNat (← read? (natural? UInt32.size) 0 mask)
      randomMax := UInt32.ofNat (← read? (natural? UInt32.size) 1000000 randomMax)
      maxDescription := ← read? (natural? UInt64.size) 90 maxDescription
      testPath := ← read? text? "." testPath
      outputFile := ← read? text? "" outputFile }
  | _, _ => none

/-- The settings that a TOML text gives. -/
def ofToml (text : String) : Checked Settings :=
  match (Toml.Document.read? text).bind ofDocument? with
  | some s => .ok s
  | none => .fail .format "configuration: not a document of settings"

end Settings

end CommandScript
