/-!
# The log

Messages belong to a category, and a mask of bits says which categories are kept. Program output,
warnings and errors are always kept.
-/

namespace CommandScript

inductive Category where
  | normal
  | parser
  | sheet
  | info
  | props
  | program
  | compile
  | vars
  | debug
  | warn
  | error
  deriving DecidableEq, Repr

namespace Category

def all : List Category :=
  [normal, parser, sheet, info, props, program, compile, vars, debug, warn, error]

/-- The place of the category among the bits of a mask. -/
def place : Category → Nat
  | normal => 0
  | parser => 1
  | sheet => 2
  | info => 3
  | props => 4
  | program => 5
  | compile => 6
  | vars => 7
  | debug => 8
  | warn => 9
  | error => 10

def bit (c : Category) : Nat := 1 <<< c.place

def name : Category → String
  | normal => "NORMAL"
  | parser => "PARSER"
  | sheet => "SSHEET"
  | info => "INFO"
  | props => "PROPS"
  | program => "PROGRAM"
  | compile => "COMPILE"
  | vars => "VARS"
  | debug => "DEBUG"
  | warn => "WARN"
  | error => "ERROR"

instance : ToString Category := ⟨name⟩

/-- Kept under every mask. -/
def isAlwaysOn : Category → Bool
  | normal | warn | error => true
  | _ => false

/-- The mask keeps messages of the category. -/
def isKept (c : Category) (mask : UInt32) : Bool :=
  c.isAlwaysOn || mask.toNat.testBit c.place

end Category

/-- The messages kept so far, oldest first, and the mask that the next ones meet. -/
structure Log where
  mask : UInt32 := 0
  entries : Array (Category × String) := #[]

namespace Log

def add (log : Log) (c : Category) (message : String) : Log :=
  if c.isKept log.mask then { log with entries := log.entries.push (c, message) } else log

def warn (log : Log) (message : String) : Log :=
  log.add .warn message

def withMask (log : Log) (mask : UInt32) : Log :=
  { log with mask }

/-- The messages of one category. -/
def messages (log : Log) (c : Category) : List String :=
  log.entries.toList.filterMap fun e => if e.1 = c then some e.2 else none

@[simp] theorem mask_add (log : Log) (c : Category) (message : String) :
    (log.add c message).mask = log.mask := by
  unfold add
  split <;> rfl

end Log

end CommandScript
