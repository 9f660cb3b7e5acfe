import CommandScript.Files.Desk
import CommandScript.Settings

/-!
# Settings files

Settings that are kept as a TOML document in a file.
-/

namespace CommandScript.Settings

open Files

/-- The settings in the file at a path. -/
def ofFile (tree : Tree) (path : String) : Checked Settings :=
  match Desk.textOf tree path with
  | .error why => .fail .io s!"{path}: {why}"
  | .ok text => ofToml text

end CommandScript.Settings
