import CommandScript.Fault
import CommandScript.Text.Blank

/-!
# Quoted texts and argument lists

A literal stands between quotes; inside it a backslash covers the next character. Argument text is
cut at blanks, and a `+` joins pieces of text, but only outside quotes and brackets. `Place` follows
where in such a text a character stands.
-/

namespace CommandScript.Text

/-- Where a character of an argument text stands. -/
structure Place where
  quoted : Bool := false
  /-- The character is covered by a backslash. -/
  escaped : Bool := false
  /-- Brackets and parentheses that are open, less those closed. -/
  depth : Int := 0

namespace Place

/-- The place behind a character. -/
def next (p : Place) (c : Char) : Place :=
  if p.quoted then
    if p.escaped then { p with escaped := false }
    else if c == '\\' then { p with escaped := true }
    else if c == '"' then { p with quoted := false }
    else p
  else if c == '"' then { p with quoted := true }
  else if c == '[' || c == '(' then { p with depth := p.depth + 1 }
  else if c == ']' || c == ')' then { p with depth := p.depth - 1 }
  else p

/-- Outside quotes, brackets and parentheses. -/
def isOutside (p : Place) : Bool :=
  !p.quoted && decide (p.depth ≤ 0)

end Place

/-- Cuts a text at the characters outside that `isMark` selects; none if a quote stays open. -/
def cutOutside (isMark : Char → Bool) (p : Place) (current : List Char) :
    List Char → Option (List (List Char))
  | [] => if p.quoted then none else some [current.reverse]
  | c :: rest =>
    if p.isOutside && isMark c then
      (current.reverse :: ·) <$> cutOutside isMark p [] rest
    else cutOutside isMark (p.next c) (c :: current) rest

def unterminated (text : String) : Checked α :=
  .fail .malformed s!"unterminated string in '{text}'"

/-- The arguments of a command: pieces between blanks, quoted texts and brackets being kept whole.
-/
def splitArguments (text : String) : Checked (List String) :=
  match cutOutside isBlank {} [] text.toList with
  | none => unterminated text
  | some pieces => .ok ((pieces.filter fun p => !p.isEmpty).map String.ofList)

/-- The pieces that `+` joins. -/
def splitJoined (text : String) : Checked (List String) :=
  match cutOutside (· == '+') {} [] text.toList with
  | none => unterminated text
  | some pieces => .ok (pieces.map String.ofList)

/-- The character that a backslash and `c` stand for. -/
def escapedChar (c : Char) : Char :=
  if c = 'n' then '\n' else if c = 't' then '\t' else c

/-- The text that the inside of a literal stands for. -/
def decodeInside (token : String) : List Char → Checked (List Char)
  | [] => .ok []
  | ['\\'] => .fail .malformed s!"dangling escape in {token}"
  | '\\' :: c :: rest => (escapedChar c :: ·) <$> decodeInside token rest
  | '"' :: _ => .fail .malformed s!"unescaped quote in {token}"
  | c :: rest => (c :: ·) <$> decodeInside token rest

/-- The text between a quote in front and a quote behind. -/
def unquote? : List Char → Option (List Char)
  | '"' :: rest =>
    match rest.reverse with
    | '"' :: inside => some inside.reverse
    | _ => none
  | _ => none

/-- The text that a literal stands for. -/
def readLiteral (token : String) : Checked String :=
  match unquote? token.toList with
  | none => .fail .malformed s!"malformed string literal {token}"
  | some inside => String.ofList <$> decodeInside token inside

end CommandScript.Text
