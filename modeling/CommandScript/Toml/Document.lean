import CommandScript.Toml.Key
import CommandScript.Toml.Node
import CommandScript.Toml.Number

/-!
# TOML documents

A document is a row of lines: headers, keys with their values, comments. Lists and strings may go
over several lines. A key or table that is complete cannot be defined again.
-/

namespace CommandScript.Toml

open Text

/-- The end of a value that is neither quoted nor between brackets. -/
def endsPlain (c : Char) : Bool :=
  isGap c || c == '\n' || c == '\r' || c == '#' || c == ',' || c == ']' || c == '}'

def plainText (s : List Char) : List Char × List Char :=
  (s.takeWhile fun c => !endsPlain c, s.dropWhile fun c => !endsPlain c)

/-- The scalar that a text without quotes is. -/
def plain? (s : List Char) : Option Scalar :=
  if s == "true".toList then some (.boolean true)
  else if s == "false".toList then some (.boolean false)
  else match integer? s with
    | some n => some (.integer n)
    | none =>
      if isFloat s then some .float
      else if isMoment s then some .moment
      else none

/-- A value without quotes or brackets, and what follows it. A space may stand between a date and a
time. -/
def plainValue? (s : List Char) : Option (Scalar × List Char) := do
  let (text, rest) := plainText s
  match rest with
  | ' ' :: more =>
    let (time, after) := plainText more
    if isDate text && isShiftedTime time then return (.moment, after)
    else return (← plain? text, rest)
  | _ => return (← plain? text, rest)

mutual

/-- A value, and what follows it. `depth` counts the brackets around it; `fuel` bounds the reading
and is enough when it is more than twice the length of the text. -/
def value? : Nat → Nat → List Char → Option (Node × List Char)
  | 0, _, _ => none
  | fuel + 1, depth, s =>
    match s with
    | '"' :: '"' :: '"' :: _ | '\x27' :: '\x27' :: '\x27' :: _ =>
      (fun p => (.scalar (.string (String.ofList p.1)), p.2)) <$> blockString? s
    | '"' :: _ | '\x27' :: _ =>
      (fun p => (.scalar (.string (String.ofList p.1)), p.2)) <$> lineString? s
    | '[' :: rest =>
      if depth + 1 < depthLimit then
        (fun p => (.list p.1, p.2)) <$> items? fuel (depth + 1) rest
      else none
    | '\x7b' :: rest =>
      if depth + 1 < depthLimit then
        match skipGaps rest with
        | '\x7d' :: rest => some (.braced [], rest)
        | rest =>
          (fun p => (.braced p.1.fields, p.2)) <$>
            fields? fuel (depth + 1) { origin := .header } rest
      else none
    | _ => (fun p => (.scalar p.1, p.2)) <$> plainValue? s

/-- The rest of a list, and what follows it. -/
def items? : Nat → Nat → List Char → Option (List Node × List Char)
  | 0, _, _ => none
  | fuel + 1, depth, s => do
    match ← skipLines (s.length + 1) s with
    | ']' :: rest => return ([], rest)
    | s =>
      let (v, rest) ← value? fuel depth s
      match ← skipLines (rest.length + 1) rest with
      | ']' :: rest => return ([v], rest)
      | ',' :: rest =>
        let (more, rest) ← items? fuel depth rest
        return (v :: more, rest)
      | _ => none

/-- The rest of a table between braces, and what follows it. -/
def fields? : Nat → Nat → Table → List Char → Option (Table × List Char)
  | 0, _, _, _ => none
  | fuel + 1, depth, t, s => do
    let (path, key, rest) ← key? s
    let (v, rest) ← value? fuel depth (skipGaps (← after? '=' rest))
    let t ← t.withValue path key v
    match skipGaps rest with
    | '\x7d' :: rest => return (t, rest)
    | ',' :: rest => fields? fuel depth t rest
    | _ => none

end

structure Document where
  root : Table := { origin := .header }
  /-- The table that the next keys belong to. -/
  current : List String := []

namespace Document

/-- Takes in a line that has a header or a key; what follows the line is given back. -/
def withLine (d : Document) (s : List Char) : Option (Document × List Char) :=
  match s with
  | '[' :: '[' :: rest => do
    let (path, key, rest) ← key? rest
    let rest ← lineEnd? (← after? ']' (← after? ']' rest))
    return ({ root := ← d.root.withEntry path key, current := path ++ [key] }, rest)
  | '[' :: rest => do
    let (path, key, rest) ← key? rest
    let rest ← lineEnd? (← after? ']' rest)
    return ({ root := ← d.root.withHeader path key, current := path ++ [key] }, rest)
  | _ => do
    let (path, key, rest) ← key? s
    let (v, rest) ← value? (2 * s.length + 1) 0 (skipGaps (← after? '=' rest))
    let rest ← lineEnd? rest
    let root ← d.root.within false (fun t => t.withValue path key v) d.current
    return ({ d with root }, rest)

/-- Takes in all lines; `fuel` bounds their number. -/
def withLines : Nat → Document → List Char → Option Document
  | 0, _, _ => none
  | fuel + 1, d, s =>
    match skipGaps s with
    | [] => some d
    | s =>
      match lineEnd? s with
      | some rest => withLines fuel d rest
      | none => do
        let (d, rest) ← d.withLine s
        withLines fuel d rest

/-- A text without the mark of its byte order in front. -/
def withoutMark : List Char → List Char
  | '\ufeff' :: rest => rest
  | s => s

/-- The document that a text is. -/
def read? (text : String) : Option Document :=
  let s := withoutMark text.toList
  withLines (s.length + 1) {} s

end Document

end CommandScript.Toml
