/-!
# Names

Names of variables, loops and subroutines: an ASCII letter and then letters, digits and underscores.
-/

namespace CommandScript

def isNameChar (c : Char) : Bool :=
  c.isAlphanum || c == '_'

def isName : List Char → Bool
  | [] => false
  | c :: rest => c.isAlpha && rest.all isNameChar

def isValidName (name : String) : Bool :=
  isName name.toList

end CommandScript
