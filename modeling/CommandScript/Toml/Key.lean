import CommandScript.Numeral

/-!
# TOML strings and keys

Between the signs of a TOML line there may be spaces and tabs. A line ends with a line feed, with a
return before it or not, or with the text; a comment may stand before its end. Strings stand between
marks, and a key is a row of bare words and strings.
-/

namespace CommandScript.Toml

/-- Spaces and tabs. -/
def isGap (c : Char) : Bool := c == ' ' || c == '\t'

def skipGaps (s : List Char) : List Char := s.dropWhile isGap

/-- Control characters, of which only the tab may stand in comments and on the lines of strings. -/
def isControl (c : Char) : Bool :=
  (c.toNat < 0x20 && c != '\t') || c.toNat == 0x7F

/-- What follows a line feed. -/
def newline? : List Char → Option (List Char)
  | '\n' :: rest => some rest
  | '\r' :: '\n' :: rest => some rest
  | _ => none

/-- What follows a comment, if there is one. -/
def skipComment (s : List Char) : List Char :=
  match s with
  | '#' :: comment => comment.dropWhile fun c => !isControl c
  | _ => s

/-- What follows the line, of which nothing but a comment may be left. -/
def lineEnd? (s : List Char) : Option (List Char) :=
  match skipComment (skipGaps s) with
  | [] => some []
  | rest => newline? rest

/-- What follows gaps, comments and line feeds; `fuel` bounds the lines. -/
def skipLines : Nat → List Char → Option (List Char)
  | 0, _ => none
  | fuel + 1, s =>
    match skipGaps s with
    | '#' :: comment => do skipLines fuel (← newline? (skipComment ('#' :: comment)))
    | rest =>
      match newline? rest with
      | some next => skipLines fuel next
      | none => some rest

/-!
## TOML strings

A string stands on one line between single marks, or over several lines between threefold marks.
Between double quotes a backslash begins an escape; between single quotes every character stands for
itself. A threefold mark that closes a string may have one or two more of its marks before it, which
belong to the text.
-/

/-- The character with a hexadecimal code, unless it is a surrogate or too great. -/
def charOfHex? (digits : List Char) : Option Char := do
  let n ← Numeral.digits? 16 digits
  if n.isValidChar then some (Char.ofNat n) else none

/-- The text that ends with a closing mark over several lines, given what follows its first three
marks. -/
def closing (mark : Char) : List Char → List Char × List Char
  | a :: b :: rest =>
    if a = mark ∧ b = mark then ([mark, mark], rest)
    else if a = mark then ([mark], b :: rest)
    else ([], a :: b :: rest)
  | [a] => if a = mark then ([mark], []) else ([], [a])
  | [] => ([], [])

/-- Nothing but gaps is left on the line. -/
def isLineOver (s : List Char) : Bool :=
  (newline? (skipGaps s)).isSome

/-- The rest of a string between double quotes, and what follows it. `several` says that it may go
over several lines, and `skipping` that a backslash at the end of a line has hidden the line feed
and the gaps up to the next character. -/
def basicRest (several : Bool) : Bool → List Char → Option (List Char × List Char)
  | skipping, '\r' :: '\n' :: rest =>
    if skipping then basicRest several true rest
    else if several then (fun p => ('\n' :: p.1, p.2)) <$> basicRest several false rest
    else none
  | _, '"' :: '"' :: '"' :: rest =>
    if several then some (closing '"' rest) else some ([], '"' :: '"' :: rest)
  | _, '"' :: rest =>
    if several then (fun p => ('"' :: p.1, p.2)) <$> basicRest several false rest
    else some ([], rest)
  | _, '\\' :: 'u' :: a :: b :: c :: d :: rest => do
    let x ← charOfHex? [a, b, c, d]
    (fun p => (x :: p.1, p.2)) <$> basicRest several false rest
  | _, '\\' :: 'U' :: a :: b :: c :: d :: e :: f :: g :: h :: rest => do
    let x ← charOfHex? [a, b, c, d, e, f, g, h]
    (fun p => (x :: p.1, p.2)) <$> basicRest several false rest
  | _, '\\' :: c :: rest =>
    if several && isLineOver (c :: rest) then basicRest several true (c :: rest)
    else do
      let x ← [('b', '\x08'), ('t', '\t'), ('n', '\n'), ('f', '\x0c'), ('r', '\r'), ('"', '"'),
        ('\\', '\\')].lookup c
      (fun p => (x :: p.1, p.2)) <$> basicRest several false rest
  | skipping, c :: rest =>
    if skipping && (isGap c || c == '\n') then basicRest several true rest
    else if isControl c && !(several && c == '\n') then none
    else (fun p => (c :: p.1, p.2)) <$> basicRest several false rest
  | _, [] => none

/-- The rest of a string between single quotes, and what follows it. -/
def literalRest (several : Bool) : List Char → Option (List Char × List Char)
  | '\r' :: '\n' :: rest =>
    if several then (fun p => ('\n' :: p.1, p.2)) <$> literalRest several rest else none
  | '\x27' :: '\x27' :: '\x27' :: rest =>
    if several then some (closing '\x27' rest) else some ([], '\x27' :: '\x27' :: rest)
  | '\x27' :: rest =>
    if several then (fun p => ('\x27' :: p.1, p.2)) <$> literalRest several rest
    else some ([], rest)
  | c :: rest =>
    if isControl c && !(several && c == '\n') then none
    else (fun p => (c :: p.1, p.2)) <$> literalRest several rest
  | [] => none

/-- A string on one line, and what follows it. -/
def lineString? : List Char → Option (List Char × List Char)
  | '"' :: rest => basicRest false false rest
  | '\x27' :: rest => literalRest false rest
  | _ => none

/-- A string over several lines, and what follows it. A line feed right behind the opening mark does
not belong to it. -/
def blockString? : List Char → Option (List Char × List Char)
  | '"' :: '"' :: '"' :: rest => basicRest true false ((newline? rest).getD rest)
  | '\x27' :: '\x27' :: '\x27' :: rest => literalRest true ((newline? rest).getD rest)
  | _ => none

/-!
## TOML keys

A key is a row of parts with points between them. A part is bare or a string on one line.
-/

def isBareKeyChar (c : Char) : Bool :=
  c.isAlphanum || c == '_' || c == '-'

/-- One part of a key, and what follows it. -/
def keyPart? (s : List Char) : Option (String × List Char) :=
  match s with
  | '"' :: _ | '\x27' :: _ => (fun p => (String.ofList p.1, p.2)) <$> lineString? s
  | _ =>
    let bare := s.takeWhile isBareKeyChar
    if bare.isEmpty then none else some (String.ofList bare, s.dropWhile isBareKeyChar)

/-- Keys and nested values go less deep than this. -/
def depthLimit : Nat := 80

/-- A key and what follows it, with gaps around the parts; `fuel` bounds the parts. The parts before
the last come as a path. -/
def keyWithin? : Nat → List Char → Option (List String × String × List Char)
  | 0, _ => none
  | fuel + 1, s => do
    let (part, rest) ← keyPart? (skipGaps s)
    match skipGaps rest with
    | '.' :: more =>
      let (path, last, rest) ← keyWithin? fuel more
      return (part :: path, last, rest)
    | rest => return ([], part, rest)

def key? (s : List Char) : Option (List String × String × List Char) :=
  keyWithin? (depthLimit - 1) s

end CommandScript.Toml
