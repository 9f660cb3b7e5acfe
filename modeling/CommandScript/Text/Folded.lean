/-!
# Text without regard to the case of letters

Keywords, option names and trait names are compared with the ASCII letters folded to upper case; no
other character is changed.
-/

namespace CommandScript.Text

/-- The two texts are equal when ASCII letters are folded. -/
def sameFolded (s t : List Char) : Bool :=
  s.map Char.toUpper == t.map Char.toUpper

/-- The rest of the text after `mark`, whose letters may be in either case. -/
def afterFolded? (mark s : List Char) : Option (List Char) :=
  if sameFolded (s.take mark.length) mark then some (s.drop mark.length) else none

/-- The text is `word`, written in capitals, in some case. -/
def isWord (word text : String) : Bool :=
  sameFolded text.toList word.toList

/-- The meaning of `text` in a table of words written in capitals. -/
def lookupWord (table : List (String × α)) (text : String) : Option α :=
  (table.find? fun entry => isWord entry.1 text).map (·.2)

end CommandScript.Text
