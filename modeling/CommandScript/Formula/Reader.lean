import CommandScript.Formula
import CommandScript.Reference.Reader

/-!
# Reading formulas

Spaces and tabs separate tokens. A number takes all letters and digits that follow its first digit.
A minus with a digit behind it begins a negative literal where an operand is due and is an operator
elsewhere. The tokens are then checked against the grammar.
-/

namespace CommandScript.Formula

open Text

/-- An operand is due after `last`: at the start, behind an operator and behind an opening. -/
def operandDue : Option Token → Bool
  | none | some (.operator _) | some .opening => true
  | some _ => false

def readNumber (s : List Char) : Checked Token :=
  match Numeral.integer? s with
  | some n => .ok (.value n)
  | none => .fail .malformed s!"invalid number '{String.ofList s}'"

def startsWithDigit : List Char → Bool
  | [] => false
  | c :: _ => c.isDigit

/-- The letters and digits in front of the text. -/
def alphanumerics (s : List Char) : List Char :=
  s.takeWhile Char.isAlphanum

/-- The tokens of the rest of a formula, of which `skip` characters belong to the token read last.
-/
def lexFrom (formula : String) (last : Option Token) : Nat → List Char → Checked (List Token)
  | _, [] => .ok []
  | skip + 1, _ :: rest => lexFrom formula last skip rest
  | 0, c :: rest => do
    let push (t : Token) (more : Nat) : Checked (List Token) := do
      return t :: (← lexFrom formula (some t) more rest)
    if c == ' ' || c == '\t' then
      lexFrom formula last 0 rest
    else if c == '(' then push .opening 0
    else if c == ')' then push .closing 0
    else if c == '$' then
      let size := Reference.span (c :: rest)
      let r ← Reference.read (String.ofList ((c :: rest).take size))
      push (.reference r) (size - 1)
    else if c.isDigit || (c == '-' && startsWithDigit rest && operandDue last) then
      let run := alphanumerics rest
      let number ← readNumber (c :: run)
      push number run.length
    else
      match Operator.ofChar? c with
      | some op => push (.operator op) 0
      | none => Checked.fail .malformed s!"unexpected '{c}' in formula '{formula}'"

/-- The tokens of a text. -/
def lex (formula : String) : Checked (List Token) :=
  lexFrom formula none 0 formula.toList

end CommandScript.Formula

/-!
## The grammar of formulas

An expression is operands joined by operators, and an operand is a literal, a reference or an
expression in parentheses. The check walks over the tokens once and keeps how many parentheses are
open and whether an operand is due.
-/

namespace CommandScript.Formula

/-- Checks the tokens behind a place with `depth` open parentheses, where an operand is due or has
just been read. -/
def checkFrom : Bool → Nat → List Token → Checked Unit
  | due, depth, [] =>
    if depth ≠ 0 then .fail .malformed "unbalanced parentheses"
    else if due then .fail .malformed "formula ends with an operator"
    else .ok ()
  | true, depth, .value _ :: rest => checkFrom false depth rest
  | true, depth, .reference _ :: rest => checkFrom false depth rest
  | false, _, .value _ :: _ => .fail .malformed "two consecutive operands"
  | false, _, .reference _ :: _ => .fail .malformed "two consecutive operands"
  | false, depth, .operator _ :: rest => checkFrom true depth rest
  | true, _, .operator op :: _ =>
    .fail .malformed s!"operator '{op.symbol}' is missing its left operand"
  | true, depth, .opening :: rest => checkFrom true (depth + 1) rest
  | false, _, .opening :: _ => .fail .malformed "'(' cannot follow an operand"
  | false, depth + 1, .closing :: rest => checkFrom false depth rest
  | false, 0, .closing :: _ => .fail .malformed "unmatched ')'"
  | true, _, .closing :: _ => .fail .malformed "')' must follow an operand"

/-- Accepts the tokens of one expression. -/
def check : List Token → Checked Unit
  | [] => .fail .malformed "empty formula"
  | tokens => checkFrom true 0 tokens

/-- The formula that a text is. -/
def read (raw : String) : Checked Formula := do
  let tokens ← lex raw
  let text := String.ofList (Text.trim raw.toList)
  Checked.within s!"formula '{text}'" (check tokens)
  return { text, tokens }

end CommandScript.Formula
