import CommandScript.Text.Folded

/-!
# Words of the file commands

How a file is opened, what is asked of a path, and which entries of a directory are wanted.
-/

namespace CommandScript.Files

/-- Writing goes on at the end of the file. -/
inductive Mode where
  | read
  | write
  deriving DecidableEq, Repr

inductive PathCheck where
  | exists_
  | readable
  | writable
  | directory
  deriving DecidableEq, Repr

inductive Selection where
  | all
  | files
  | directories
  deriving DecidableEq, Repr

def Mode.ofWord? : String → Option Mode :=
  Text.lookupWord [("READ", .read), ("WRITE", .write)]

def PathCheck.ofWord? : String → Option PathCheck :=
  Text.lookupWord [("EXISTS", .exists_), ("READABLE", .readable), ("WRITABLE", .writable),
    ("DIRECTORY", .directory)]

def Selection.ofFlag? : String → Option Selection :=
  Text.lookupWord [("-F", .files), ("-D", .directories)]

end CommandScript.Files
