import CommandScript.Calendar

/-!
# Reserved variables

Seven names belong to the language. A script reads them like variables; only the commands meant for
it write them. `RANDOM` draws a number below its modulus, `DATE` and `TIME` show the clock.
-/

namespace CommandScript

inductive Reserved where
  | response
  | returned
  | status
  | random
  | date
  | time
  | scanned
  deriving DecidableEq, Repr

namespace Reserved

def name : Reserved → String
  | response => "RESPONSE"
  | returned => "RETVAL"
  | status => "STATUS"
  | random => "RANDOM"
  | date => "DATE"
  | time => "TIME"
  | scanned => "OCRTEXT"

def all : List Reserved :=
  [response, returned, status, random, date, time, scanned]

/-- The reserved variable with a name, which is written in capitals. -/
def ofName? (name : String) : Option Reserved :=
  all.find? fun r => r.name == name

def type : Reserved → ValueType
  | response => .strings
  | status => .boolean
  | random => .integer
  | returned | date | time | scanned => .string

end Reserved

/-- What is known of a generator of pseudo-random numbers: the seed that it was given, if any, and the
bounds that it was asked for since, the latest first. The number that it gives next depends on
nothing else. -/
structure Generator where
  seed : Option UInt64 := none
  asked : List Nat := []
  deriving DecidableEq, Repr

/-- What a read takes from outside: the clock, and the number that a generator gives for a bound. -/
structure Sources where
  clock : Moment
  draw : Generator → Nat → Nat

namespace Generator

/-- The generator after it was asked for a number below `bound`. -/
def next (g : Generator) (bound : Nat) : Generator :=
  { g with asked := bound :: g.asked }

end Generator

/-- What the reserved variables hold. -/
structure Cells where
  response : List String := []
  returned : String := ""
  status : Bool := false
  scanned : String := ""
  modulus : Nat
  generator : Generator := {}
  modulus_pos : 0 < modulus
  deriving DecidableEq

namespace Cells

/-- Empty cells; a modulus of zero counts as one. -/
def ofModulus (n : UInt32) : Cells where
  modulus := max n.toNat 1
  modulus_pos := by omega

/-- Sets the modulus of the random numbers. -/
def withModulus (cells : Cells) (n : Int64) : Checked Cells :=
  if h : 0 < n.toInt ∧ n.toInt < UInt32.size then
    .ok { cells with modulus := n.toInt.toNat, modulus_pos := by omega }
  else
    .fail .range s!"RANDOM modulus must be between 1 and 4294967295, got {n}"

/-- Starts the random numbers anew from a seed. -/
def seeded (cells : Cells) (seed : UInt64) : Cells :=
  { cells with generator := { seed } }

/-- The random number that comes next, which is less than the modulus. -/
def number (cells : Cells) (sources : Sources) : Nat :=
  sources.draw cells.generator cells.modulus % cells.modulus

/-- Reads a reserved variable; a random number moves the generator on. -/
def read (cells : Cells) (sources : Sources) : Reserved → Value × Cells
  | .response => (.strings cells.response, cells)
  | .returned => (.string cells.returned, cells)
  | .status => (.boolean cells.status, cells)
  | .random =>
    (.integer (Int64.ofNat (cells.number sources)),
      { cells with generator := cells.generator.next cells.modulus })
  | .date => (.string sources.clock.dateText, cells)
  | .time => (.string sources.clock.timeText, cells)
  | .scanned => (.string cells.scanned, cells)

theorem type_read (cells : Cells) (sources : Sources) (r : Reserved) :
    (cells.read sources r).1.type = r.type := by
  cases r <;> rfl

end Cells

end CommandScript
