/-!
# Faults

What can go wrong while a script is read, compiled or run. A fault has a kind and a detail; on the
way out it may gain frames, which name what was being done, and the script line it happened on. The
kind stays that of the innermost cause, and only the first line attached counts.
-/

namespace CommandScript

/-- The class of a fault, whatever frames surround it. -/
inductive FaultKind where
  | malformed
  | format
  | range
  | compile
  | runtime
  | divideByZero
  | incomplete
  | duplicate
  | typeMismatch
  | traitType
  | undefined
  | io
  /-- A number leaves its range where nothing looks out for that; whoever works with it is given up. -/
  | overflow
  deriving DecidableEq, Repr

namespace FaultKind

/-- How a fault of this kind introduces itself. -/
def title : FaultKind → String
  | malformed => "syntax error"
  | format => "format error"
  | range => "range error"
  | compile => "compile error"
  | runtime => "runtime error"
  | divideByZero => "divide by zero"
  | incomplete => "calculation incomplete"
  | duplicate => "duplicate allocation"
  | typeMismatch => "type mismatch"
  | traitType => "trait not valid for type"
  | undefined => "variable not found"
  | io => "I/O error"
  | overflow => "attempt to negate with overflow"

end FaultKind

inductive Fault where
  | cause (kind : FaultKind) (detail : String)
  | framed (frame : String) (source : Fault)
  | onLine (number : Nat) (text : String) (source : Fault)
  deriving DecidableEq, Repr

namespace Fault

/-- The kind of the innermost cause. -/
def kind : Fault → FaultKind
  | cause k _ => k
  | framed _ source => source.kind
  | onLine _ _ source => source.kind

/-- The script line attached to the fault, seen through its frames. -/
def line? : Fault → Option Nat
  | cause _ _ => none
  | framed _ source => source.line?
  | onLine n _ _ => some n

/-- Outermost frame first; the text of the script line stands on a line of its own. -/
def message : Fault → String
  | cause k detail => s!"{k.title}: {detail}"
  | framed frame source => s!"{frame}: {source.message}"
  | onLine n text source => s!"line {n}: {source.message}\n    -> {text}"

/-- Attaches a script line, unless the fault has one already. -/
def atLine (number : Nat) (text : String) (f : Fault) : Fault :=
  match f.line? with
  | some _ => f
  | none => onLine number text f

@[simp] theorem kind_atLine (n : Nat) (text : String) (f : Fault) :
    (f.atLine n text).kind = f.kind := by
  unfold atLine
  split <;> rfl

/-- A fault has a line as soon as one was attached, and it is the first one attached. -/
theorem line?_atLine (n : Nat) (text : String) (f : Fault) :
    (f.atLine n text).line? = some (f.line?.getD n) := by
  unfold atLine
  split <;> simp_all [line?]

end Fault

/-- The outcome of an operation that may fail. -/
abbrev Checked := Except Fault

namespace Checked

def fail (kind : FaultKind) (detail : String) : Checked α :=
  .error (.cause kind detail)

/-- Names what was being done when a fault came up. -/
def within (frame : String) (result : Checked α) : Checked α :=
  result.mapError (Fault.framed frame)

theorem ok_bind (a : α) (f : α → Checked β) : (.ok a : Checked α) >>= f = f a :=
  rfl

theorem fail_bind (kind : FaultKind) (detail : String) (g : α → Checked β) :
    (fail kind detail : Checked α) >>= g = fail kind detail :=
  rfl

end Checked

/-! ### Operations on a state -/

section Outcome

variable {σ α β : Type}

/-- What an operation comes to, if the state is of interest only where it succeeds. -/
def outcome (action : ExceptT Fault (StateM σ) α) (s : σ) : Checked (α × σ) :=
  match action.run s with
  | (.ok a, s) => .ok (a, s)
  | (.error f, _) => .error f

theorem outcome_bind (action : ExceptT Fault (StateM σ) α) (f : α → ExceptT Fault (StateM σ) β)
    (s : σ) : outcome (action >>= f) s = outcome action s >>= fun r => outcome (f r.1) r.2 := by
  simp only [outcome, ExceptT.run, bind, ExceptT.bind, ExceptT.mk, ExceptT.bindCont, StateT.bind]
  rcases action s with ⟨_ | a, t⟩ <;> rfl

theorem outcome_get (s : σ) : outcome (get : ExceptT Fault (StateM σ) σ) s = .ok (s, s) :=
  rfl

theorem outcome_liftM (x : Checked α) (s : σ) :
    outcome (liftM x : ExceptT Fault (StateM σ) α) s = x >>= fun a => .ok (a, s) := by
  cases x <;> rfl

end Outcome

end CommandScript
