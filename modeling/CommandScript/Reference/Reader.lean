import CommandScript.Reference

/-!
# Reading references

A text is a reference when it is `$`, a name, an index in brackets at most and a trait behind a
point at most, and nothing else. `span` measures the reference that a longer text begins with, by
its shape alone.
-/

namespace CommandScript

open Text

namespace Bound

/-- Digits are a position, `$` and a name a variable; blanks around them do not count. -/
def read (raw : List Char) : Checked Bound :=
  let s := trim raw
  let bad : Checked Bound :=
    .fail .malformed s!"index '{String.ofList s}' must be a non-negative integer or a $variable"
  match s with
  | [] => bad
  | '$' :: name => if isName name then .ok (named (String.ofList name)) else bad
  | c :: rest =>
    match Numeral.digits? 10 (c :: rest) with
    | some n => if n < UInt64.size then .ok (position (UInt64.ofNat n)) else bad
    | none => bad

end Bound

namespace Index

/-- What stands between the brackets: one bound, or two with a minus between them. -/
def read (raw : List Char) : Checked Index := do
  let inner := trim raw
  if inner.isEmpty then
    Checked.fail .malformed "empty index '[]'"
  match cutAtMark '-' inner with
  | none => return single (← Bound.read inner)
  | some (a, b) =>
    let first ← Bound.read a
    let last ← Bound.read b
    match first, last with
    | .position x, .position y =>
      if y < x then
        Checked.fail .malformed s!"index range [{x.toNat}-{y.toNat}] is reversed"
      else return range first last
    | _, _ => return range first last

end Index

namespace Reference

/-- The index that stands in front of the text, if one does, and the text after it. -/
def readIndex (token : String) : List Char → Checked (Option Index × List Char)
  | '[' :: inner => do
    match cutAtMark ']' inner with
    | none => Checked.fail .malformed s!"missing ']' in '{token}'"
    | some (bounds, rest) => return (some (← Index.read bounds), rest)
  | ']' :: _ => .fail .malformed s!"unmatched ']' in '{token}'"
  | rest => .ok (none, rest)

/-- The trait that a text behind name and index is. -/
def readTrait (token : String) : List Char → Checked (Option Trait)
  | [] => .ok none
  | '.' :: word =>
    match Trait.ofWord? (String.ofList word) with
    | some t => .ok (some t)
    | none => .fail .malformed s!"unknown trait '.{String.ofList word}' in '{token}'"
  | rest => .fail .malformed s!"unexpected '{String.ofList rest}' after reference '{token}'"

/-- Refuses an index on the traits that look at the whole variable. -/
def checkWhole (r : Reference) : Checked Reference :=
  match r.trait, r.index with
  | some t, some _ =>
    if t.isMetadata || t == .filter then .fail .malformed s!".{t} does not accept an index"
    else .ok r
  | _, _ => .ok r

/-- The reference that a whole text is. -/
def read (token : String) : Checked Reference :=
  match token.toList with
  | '$' :: body => do
    let name := body.takeWhile isNameChar
    if !isName name then
      Checked.fail .malformed s!"invalid variable name in '{token}'"
    let (index, rest) ← readIndex token (body.dropWhile isNameChar)
    let trait ← readTrait token rest
    checkWhole { name := String.ofList name, index, trait }
  | _ => .fail .malformed s!"'{token}' is not a $ reference"

/-- The length of an index in front of the text; an index that is not closed takes all of it. -/
def indexSpan (s : List Char) : Nat :=
  match s with
  | '[' :: rest =>
    match rest.dropWhile (· != ']') with
    | [] => s.length
    | _ :: _ => (rest.takeWhile (· != ']')).length + 2
  | _ => 0

/-- The length of a trait in front of the text: a point and letters, one at least. -/
def traitSpan : List Char → Nat
  | '.' :: c :: rest => if c.isAlpha then (rest.takeWhile Char.isAlpha).length + 2 else 0
  | _ => 0

/-- The characters of the reference that a text begins with, whose first one is `$`. -/
def span (s : List Char) : Nat :=
  let name := 1 + ((s.drop 1).takeWhile isNameChar).length
  let index := indexSpan (s.drop name)
  name + index + traitSpan (s.drop (name + index))

/-- The text begins with `$` and is, by its shape, one reference. -/
def looksWhole (s : List Char) : Bool :=
  s.head? == some '$' && span s == s.length

end Reference

end CommandScript
