import CommandScript.Formula

/-!
# The value of a formula

The innermost parentheses that close first are worked out first. The references of one pair of
parentheses are looked up from left to right before any of its operators is applied; then the tight
operators are applied from left to right, and then the others. Looking up runs in any monad that can
fail, so that it may write to a log or draw a random number.
-/

namespace CommandScript.Formula

/-- A part of a formula that is no expression; the reader lets none through. -/
def incomplete (detail : String) : Checked α :=
  .fail .incomplete detail

/-- Applies the selected operators from left to right; `done` holds the tokens to the left, nearest
first. -/
def applySelected (selected : Operator → Bool) (done : List Token) :
    List Token → Checked (List Token)
  | [] => .ok done.reverse
  | .operator op :: rest =>
    if selected op then
      match rest, done with
      | .value b :: after, .value a :: before => do
        applySelected selected (.value (← op.apply a b) :: before) after
      | .value _ :: _, _ => incomplete s!"operator '{op.symbol}' has no left operand"
      | _, _ => incomplete s!"operator '{op.symbol}' has no right operand"
    else applySelected selected (.operator op :: done) rest
  | t :: rest => applySelected selected (t :: done) rest

/-- The value of tokens between parentheses, without references among them. -/
def reduceValues (tokens : List Token) : Checked Int64 := do
  let sums ← applySelected Operator.isMultiplicative [] tokens
  match ← applySelected (fun _ => true) [] sums with
  | [.value n] => return n
  | left => incomplete s!"{left.length} tokens left after reduction"

section Lookup

variable {m : Type → Type} [Monad m] [MonadExceptOf Fault m] [MonadLiftT Checked m]
  (look : Reference → m Int64)

/-- A token, a reference being looked up. -/
def lookedUp : Token → m Token
  | .reference r => return .value (← look r)
  | t => return t

/-- The value of the tokens between one pair of parentheses. -/
def reduceTokens (tokens : List Token) : m Int64 := do
  let tokens ← tokens.mapM (lookedUp look)
  monadLift (reduceValues tokens)

/-- Works through the tokens of the formula `text`; `outer` holds what stands before each open
parenthesis, innermost first, and `here` what has been read since, each reversed. -/
def evaluateFrom (text : String) (outer : List (List Token)) (here : List Token) :
    List Token → m Int64
  | [] => tryCatch (reduceTokens look here.reverse) fun e =>
    throw (if e.kind = .incomplete then .framed text e else e)
  | .opening :: rest => evaluateFrom text (here :: outer) [] rest
  | .closing :: rest =>
    match outer with
    | [] => monadLift (incomplete s!"unmatched ')' in '{text}'" : Checked Int64)
    | before :: outer => do
      let n ← reduceTokens look here.reverse
      evaluateFrom text outer (.value n :: before) rest
  | t :: rest => evaluateFrom text outer (t :: here) rest

/-- The value of the formula, its references being looked up with `look`. -/
def evaluate (f : Formula) : m Int64 :=
  evaluateFrom look f.text [] [] f.tokens

end Lookup

end CommandScript.Formula
