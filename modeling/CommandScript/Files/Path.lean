import CommandScript.Text.Blank

/-!
# Paths

A path is a text. Joining puts a relative path behind a base and keeps both as they are written. Two
paths are the same when their steps are: repeated and trailing slashes and points inside a path make
no step, and `..` is kept, since what it leads to depends on the tree.
-/

namespace CommandScript.Files

/-- What a path says from left to right. -/
inductive Step where
  | root
  | here
  | up
  | down (name : String)
  deriving DecidableEq, Repr

namespace Path

def isAbsolute (path : String) : Bool :=
  path.toList.head? == some '/'

/-- The path as seen from `base`. -/
def join (base path : String) : String :=
  if isAbsolute path then path
  else if base.isEmpty || base.toList.getLast? == some '/' then base ++ path
  else base ++ "/" ++ path

/-- The parts between slashes that are not empty. -/
def parts (path : String) : List String :=
  ((Text.splitAtMark '/' path.toList).filter fun p => !p.isEmpty).map String.ofList

def stepOf (part : String) : Step :=
  if part = "." then .here else if part = ".." then .up else .down part

/-- The steps of a path; a point counts only at the beginning of a relative path. -/
def steps (path : String) : List Step :=
  let all := (parts path).map stepOf
  if isAbsolute path then .root :: all.filter (· ≠ .here)
  else match all with
    | [] => []
    | first :: rest => first :: rest.filter (· ≠ .here)

def same (p q : String) : Bool :=
  steps p == steps q

/-- The part that a step is written as. -/
def partOf : Step → String
  | .root => ""
  | .here => "."
  | .up => ".."
  | .down name => name

/-- A path with the given steps. -/
def ofSteps : List Step → String
  | [.root] => "/"
  | steps => "/".intercalate (steps.map partOf)

end Path

end CommandScript.Files
