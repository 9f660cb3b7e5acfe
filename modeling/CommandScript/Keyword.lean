import CommandScript.Text.Blank
import CommandScript.Text.Folded

/-!
# Keywords

The words that begin a command line, in any case of their letters.
-/

namespace CommandScript

inductive Keyword where
  | allocate
  | set
  | print
  | run
  | if_
  | elseIf
  | else_
  | endIf
  | for_
  | next
  | skip
  | skipIf
  | break_
  | breakIf
  | endFor
  | sub
  | endSub
  | gosub
  | return_
  | endMain
  | exit
  | startup
  | endStartup
  | insert
  | append
  | modify
  | remove
  | truncate
  | pop
  | clear
  | filter
  | reset
  | fileOpen
  | fileCreate
  | fileClose
  | fileRead
  | fileWrite
  | fileExists
  | fileSize
  | fileLines
  | fileDelete
  | changeDirectory
  | makeDirectory
  | removeDirectory
  | directory
  | scan
  deriving DecidableEq, Repr

namespace Keyword

def word : Keyword → String
  | allocate => "ALLOCATE"
  | set => "SET"
  | print => "PRINT"
  | run => "RUN"
  | if_ => "IF"
  | elseIf => "ELSEIF"
  | else_ => "ELSE"
  | endIf => "ENDIF"
  | for_ => "FOR"
  | next => "NEXT"
  | skip => "SKIP"
  | skipIf => "SKIPIF"
  | break_ => "BREAK"
  | breakIf => "BREAKIF"
  | endFor => "ENDFOR"
  | sub => "SUB"
  | endSub => "ENDSUB"
  | gosub => "GOSUB"
  | return_ => "RETURN"
  | endMain => "ENDMAIN"
  | exit => "EXIT"
  | startup => "STARTUP"
  | endStartup => "ENDSTARTUP"
  | insert => "INSERT"
  | append => "APPEND"
  | modify => "MODIFY"
  | remove => "REMOVE"
  | truncate => "TRUNCATE"
  | pop => "POP"
  | clear => "CLEAR"
  | filter => "FILTER"
  | reset => "RESET"
  | fileOpen => "FOPEN"
  | fileCreate => "FCREATE"
  | fileClose => "FCLOSE"
  | fileRead => "FREAD"
  | fileWrite => "FWRITE"
  | fileExists => "FEXISTS"
  | fileSize => "FGETSIZE"
  | fileLines => "FGETLINES"
  | fileDelete => "FDELETE"
  | changeDirectory => "CD"
  | makeDirectory => "MKDIR"
  | removeDirectory => "RMDIR"
  | directory => "DIRECTORY"
  | scan => "OCRSCAN"

instance : ToString Keyword := ⟨word⟩

def all : List Keyword :=
  [allocate, set, print, run, if_, elseIf, else_, endIf, for_, next, skip, skipIf, break_, breakIf,
    endFor, sub, endSub, gosub, return_, endMain, exit, startup, endStartup, insert, append, modify,
    remove, truncate, pop, clear, filter, reset, fileOpen, fileCreate, fileClose, fileRead,
    fileWrite, fileExists, fileSize, fileLines, fileDelete, changeDirectory, makeDirectory,
    removeDirectory, directory, scan]

theorem mem_all (k : Keyword) : k ∈ all := by
  cases k <;> decide

/-- The keyword that a word is, in any case of its letters. -/
def ofWord? (text : String) : Option Keyword :=
  all.find? fun k => Text.isWord k.word text

/-- The first word of a trimmed line and the text behind it. -/
def split (line : List Char) : List Char × List Char :=
  (line.takeWhile fun c => !Text.isBlank c,
    Text.trim (line.dropWhile fun c => !Text.isBlank c))

end Keyword

end CommandScript
