import CommandScript.Typing

/-!
# Reading commands

The commands that neither open nor close a block, read from the text behind their keyword in the
context of their line. Reading such a command changes nothing.
-/

namespace CommandScript.Context

open Text

/-- Refuses text behind a keyword that takes none. -/
def noArguments (keyword : Keyword) (rest : String) : Checked Unit :=
  if rest.isEmpty then .ok ()
  else .fail .malformed s!"{keyword} takes no arguments, found '{rest}'"

/-- The first argument and the text behind it. -/
def splitFirst (text : String) : Checked (String × String) := do
  match ← splitArguments text with
  | [] => Checked.fail .malformed "missing argument"
  | first :: _ => return (first, String.ofList (trim (text.toList.drop first.length)))

/-- The text without a `$` in front. -/
def withoutDollar (text : String) : String :=
  match text.toList with
  | '$' :: rest => String.ofList rest
  | _ => text

/-! ### SET -/

/-- The right-hand side that a target of type `t` takes under an operator. -/
def readRight (c : Context) (target : String) (t : ValueType) (op : AssignOp) (right : String) :
    Checked RightSide :=
  match t, op with
  | .integer, _ | .unsigned, _ => .number <$> c.readFormula right
  | .boolean, .set | .boolean, .and | .boolean, .or | .boolean, .xor =>
    .truth <$> c.readCondition right
  | .string, .set | .string, .add => .text <$> c.readArgument right
  | .strings, .set | .integers, .set => do
    let mismatch : Checked RightSide :=
      .fail .typeMismatch s!"SET {target} = needs a {t} reference, found '{right}'"
    match ← Operand.read right with
    | .reference r =>
      if (← c.referenceType r) = t then return .entries (.operand (.reference r)) else mismatch
    | _ => mismatch
  | .strings, .add => do
    let a ← Argument.read right
    if (← c.argumentType a) = .integers then
      Checked.fail .typeMismatch s!"cannot append IntArray {right} to StrArray {target}"
    return .entries a
  | .integers, .add => do
    let o ← Operand.read right
    let found ← c.operandType o
    if found ≠ .integers ∧ !found.mayCount then
      Checked.fail .typeMismatch s!"cannot append {found} {right} to IntArray {target}"
    return .entries (.operand o)
  | _, _ => .fail .typeMismatch s!"'{op.symbol}' is not defined for {t} {target}"

def readSet (c : Context) (rest : String) : Checked Command := do
  let { target, op, right } ← Assignment.read rest
  if target = Reserved.random.name then
    if op ≠ .set then
      Checked.fail .malformed "RANDOM only supports '='"
    return .setRandom (← c.readFormula right)
  if (Reserved.ofName? target).isSome then
    Checked.fail .compile s!"${target} is read-only"
  if c.isLoop target then
    Checked.fail .compile s!"loop variable {target} is read-only"
  return .set target op (← c.readRight target (← c.typeOf target) op right)

/-! ### Arrays -/

/-- The array that a token names, with or without a `$` and an index. -/
def readArray (c : Context) (token : String) : Checked (String × ValueType × Option Index) := do
  let r ← Reference.read s!"${withoutDollar token}"
  if r.trait.isSome then
    Checked.fail .malformed s!"'{token}': a trait is not allowed here"
  if (Reserved.ofName? r.name).isSome then
    Checked.fail .compile s!"${r.name} is read-only"
  let t ← c.typeOf r.name
  if !t.isArray then
    Checked.fail .typeMismatch s!"{r.name} is {t}, not an array"
  c.checkIndexNames r
  return (r.name, t, r.index)

/-- The array that a token names without an index, and its type. -/
def readWholeArray (c : Context) (token : String) : Checked (String × ValueType) := do
  let (name, t, index) ← c.readArray token
  if index.isSome then
    Checked.fail .malformed s!"'{token}': no index expected"
  return (name, t)

/-- One entry for an array of type `t`. -/
def readItem (c : Context) (t : ValueType) (text : String) : Checked Argument := do
  if text.isEmpty then
    Checked.fail .malformed "missing value"
  let a ← if t = .strings then Argument.read text else Argument.operand <$> Operand.read text
  let found ← c.argumentType a
  if found.isArray then
    Checked.fail .typeMismatch s!"expected one entry, found {found} {text}"
  if t = .integers ∧ !found.mayCount then
    Checked.fail .typeMismatch s!"IntArray entries must be numeric, found {found} {text}"
  return a

/-- The parts of `INSERT` and `MODIFY`. -/
def readIndexed (c : Context) (keyword : Keyword) (rest : String) :
    Checked (String × Bound × Argument) := do
  let (target, item) ← splitFirst rest
  let (array, t, index) ← c.readArray target
  match index with
  | some (.single index) => return (array, index, ← c.readItem t item)
  | _ => Checked.fail .malformed s!"{keyword} needs a single [index] on {target}"

def readAppend (c : Context) (rest : String) : Checked Command := do
  let (target, item) ← splitFirst rest
  let (array, t) ← c.readWholeArray target
  return .append array (← c.readItem t item)

def readRemove (c : Context) (rest : String) : Checked Command := do
  let (target, extra) ← splitFirst rest
  noArguments .remove extra
  match ← c.readArray target with
  | (array, _, some index) => return .remove array index
  | (_, _, none) =>
    Checked.fail .malformed s!"REMOVE needs [index] or [first-last] on {target}"

/-- The parts of `TRUNCATE` and `POP`; the count is one where none is given. -/
def readCounted (c : Context) (rest : String) : Checked (String × Formula) := do
  let (target, count) ← splitFirst rest
  let (array, _) ← c.readWholeArray target
  if count.isEmpty then return (array, Formula.literal 1)
  else return (array, ← c.readFormula count)

def readClear (c : Context) (rest : String) : Checked Command := do
  let name := withoutDollar rest
  if (Reserved.ofName? name).isSome then
    Checked.fail .compile s!"${name} is read-only"
  discard (c.typeOf name)
  return .clear name

def readReset (c : Context) (rest : String) : Checked Command := do
  let (target, extra) ← splitFirst rest
  noArguments .reset extra
  return .reset (← c.readWholeArray target).1

/-- Takes the words that qualify a text filter off the front; `fuel` bounds them. -/
def takeQualifiers : Nat → Bool × Anchor → List Char → (Bool × Anchor) × List Char
  | 0, found, s => (found, s)
  | fuel + 1, (inverted, anchor), s =>
    let (word, tail) := Keyword.split s
    let word := String.ofList word
    if isWord "NOT" word then takeQualifiers fuel (true, anchor) tail
    else if isWord "LEFT" word then takeQualifiers fuel (inverted, .left) tail
    else if isWord "RIGHT" word then takeQualifiers fuel (inverted, .right) tail
    else ((inverted, anchor), s)

/-- The filter that a text gives for an array of numbers. -/
def readNumberFilter (c : Context) (text : String) : Checked FilterSpec :=
  match Relation.find? text.toList with
  | some ([], r, after) => do return .number r (← c.readFormula (String.ofList after))
  | _ => .fail .malformed s!"IntArray filter needs '<op> value', found '{text}'"

/-- The filter that a text gives for an array of texts. -/
def readTextFilter (c : Context) (text : String) : Checked FilterSpec := do
  let ((inverted, anchor), s) := takeQualifiers text.length (false, .anywhere) text.toList
  if s.isEmpty then
    Checked.fail .malformed "FILTER needs text after NOT/LEFT/RIGHT"
  return .text inverted anchor (← c.readArgument (String.ofList s))

def readFilter (c : Context) (rest : String) : Checked Command := do
  let (target, text) ← splitFirst rest
  let (array, t) ← c.readWholeArray target
  if text.isEmpty then return .filter array .apply
  else if t = .integers then return .filter array (← c.readNumberFilter text)
  else return .filter array (← c.readTextFilter text)

/-! ### Files -/

/-- A path, and the word behind it if it has a meaning there. -/
def readPathWord (c : Context) (rest : String) (meaning : String → Option α) :
    Checked (Argument × Option α) := do
  let arguments ← splitArguments rest
  match arguments.getLast?, decide (1 < arguments.length) with
  | some last, true =>
    match meaning last with
    | some word =>
      let path := trim (rest.toList.take (rest.length - last.length))
      return (← c.readPath (String.ofList path), some word)
    | none => return (← c.readPath rest, none)
  | _, _ => return (← c.readPath rest, none)

def readDirectory (c : Context) (rest : String) : Checked Command := do
  let (first, after) ← if rest.isEmpty then pure ("", "") else splitFirst rest
  let (wanted, path) := match Files.Selection.ofFlag? first with
    | some wanted => (wanted, after)
    | none => (Files.Selection.all, rest)
  if path.isEmpty then return .directory (Argument.text ".") wanted
  else return .directory (← c.readPath path) wanted

/-- The options that a line of text gives. -/
def readOptions (text : String) : Checked Command := do
  return .run (← ScriptOption.read (← splitArguments text))

/-- The command that a keyword and the text behind it are, unless it opens or closes a block, leaves
a loop or touches the subroutines; then there is none. -/
def readCommand (c : Context) (keyword : Keyword) (rest : String) : Checked (Option Command) :=
  match keyword with
  | .set => some <$> c.readSet rest
  | .print => (some ∘ .print) <$> c.readArgument rest
  | .run => some <$> readOptions rest
  | .return_ =>
    if rest.isEmpty then .ok (some (.return_ none))
    else (some ∘ .return_ ∘ some) <$> c.readArgument rest
  | .exit => (fun _ => some .exit) <$> noArguments keyword rest
  | .insert => (fun (a, i, v) => some (.insert a i v)) <$> c.readIndexed keyword rest
  | .modify => (fun (a, i, v) => some (.modify a i v)) <$> c.readIndexed keyword rest
  | .append => some <$> c.readAppend rest
  | .remove => some <$> c.readRemove rest
  | .truncate => (fun (a, n) => some (.truncate a n)) <$> c.readCounted rest
  | .pop => (fun (a, n) => some (.pop a n)) <$> c.readCounted rest
  | .clear => some <$> c.readClear rest
  | .filter => some <$> c.readFilter rest
  | .reset => some <$> c.readReset rest
  | .fileOpen =>
    (fun (p, w) => some (.fileOpen p (w.getD .read))) <$> c.readPathWord rest Files.Mode.ofWord?
  | .fileCreate => (some ∘ .fileCreate) <$> c.readPath rest
  | .fileClose => (fun _ => some .fileClose) <$> noArguments keyword rest
  | .fileRead =>
    if rest.isEmpty then .ok (some (.fileRead none))
    else (some ∘ .fileRead ∘ some) <$> c.readFormula rest
  | .fileWrite => (some ∘ .fileWrite) <$> c.readArgument rest
  | .fileExists =>
    (fun (p, w) => some (.fileExists p (w.getD .exists_))) <$>
      c.readPathWord rest Files.PathCheck.ofWord?
  | .fileSize => (some ∘ .fileSize) <$> c.readPath rest
  | .fileLines => (some ∘ .fileLines) <$> c.readPath rest
  | .fileDelete => (some ∘ .fileDelete) <$> c.readPath rest
  | .changeDirectory => (some ∘ .changeDirectory) <$> c.readPath rest
  | .makeDirectory => (some ∘ .makeDirectory) <$> c.readPath rest
  | .removeDirectory => (some ∘ .removeDirectory) <$> c.readPath rest
  | .directory => some <$> c.readDirectory rest
  | .scan => (some ∘ .scan) <$> c.readPath rest
  | _ => .ok none

end CommandScript.Context
