import CommandScript.Text.Blank
import CommandScript.Text.Case
import CommandScript.Value

/-!
# Traits

A trait is a derived view of a variable, written `.NAME` behind a reference. Most traits are
functions of the value; the date traits look at a calendar day, `WRITER` and `WRITETIME` at who
wrote the variable and when, and `FILTER` at its mask.
-/

namespace CommandScript

inductive Trait where
  | hex
  | upper
  | lower
  | lines
  | words
  | sort
  | reverse
  | filter
  | text
  | size
  | length
  | isEmpty
  | weekdayNumber
  | dayOfMonth
  | dayOfYear
  | monthNumber
  | weekday
  | month
  | writer
  | writeTime
  deriving DecidableEq, Repr

namespace Trait

def name : Trait → String
  | hex => "HEX"
  | upper => "UPPER"
  | lower => "LOWER"
  | lines => "TOLINES"
  | words => "TOWORDS"
  | sort => "SORT"
  | reverse => "REVERSE"
  | filter => "FILTER"
  | text => "TOSTRING"
  | size => "SIZE"
  | length => "LENGTH"
  | isEmpty => "ISEMPTY"
  | weekdayNumber => "DOW"
  | dayOfMonth => "DOM"
  | dayOfYear => "DOY"
  | monthNumber => "MOY"
  | weekday => "DAY"
  | month => "MONTH"
  | writer => "WRITER"
  | writeTime => "WRITETIME"

instance : ToString Trait := ⟨name⟩

def all : List Trait :=
  [hex, upper, lower, lines, words, sort, reverse, filter, text, size, length, isEmpty,
    weekdayNumber, dayOfMonth, dayOfYear, monthNumber, weekday, month, writer, writeTime]

theorem mem_all (t : Trait) : t ∈ all := by
  cases t <;> decide

/-- The trait called `word`, in any case of its letters. -/
def ofWord? (word : String) : Option Trait :=
  all.find? fun t => Text.isWord t.name word

/-- Views of a calendar day. -/
def isDate : Trait → Bool
  | weekdayNumber | dayOfMonth | dayOfYear | monthNumber | weekday | month => true
  | _ => false

/-- Views of who wrote a variable and when. -/
def isMetadata : Trait → Bool
  | writer | writeTime => true
  | _ => false

/-- The type of the view of a value of type `t`. -/
def resultType (view : Trait) (t : ValueType) : Checked ValueType :=
  match view, t with
  | hex, .integer | hex, .unsigned => .ok .string
  | hex, .integers => .ok .strings
  | upper, .string | lower, .string => .ok .string
  | lines, .string | words, .string => .ok .strings
  | sort, .strings | reverse, .strings => .ok .strings
  | filter, .strings => .ok .strings
  | filter, .integers => .ok .integers
  | text, .strings | text, .integers => .ok .string
  | size, .string | size, .strings | size, .integers => .ok .integer
  | length, .string | length, .strings | length, .integers => .ok .integer
  | isEmpty, .string | isEmpty, .strings | isEmpty, .integers => .ok .boolean
  | weekdayNumber, .string | dayOfMonth, .string | dayOfYear, .string
  | monthNumber, .string => .ok .integer
  | weekday, .string | month, .string => .ok .string
  | writer, _ => .ok .integer
  | writeTime, _ => .ok .string
  | _, _ => .fail .traitType s!".{view} on {t}"

/-- The size of a list as a value. -/
def count (items : List α) : Value :=
  .integer (Int64.ofNat items.length)

/-- The view of a value, for the traits that need nothing but the value. -/
def apply (view : Trait) (v : Value) : Checked Value :=
  match view, v with
  | hex, .integer n => .ok (.string (Numeral.toHex n))
  | hex, .unsigned n => .ok (.string (Numeral.toHex (Int64.ofNat n.toNat)))
  | hex, .integers items => .ok (.strings (items.map Numeral.toHex))
  | upper, .string s => .ok (.string (Text.upper s))
  | lower, .string s => .ok (.string (Text.lower s))
  | lines, .string s => .ok (.strings (Text.lines s))
  | words, .string s => .ok (.strings ((Text.words s.toList).map String.ofList))
  | sort, .strings items => .ok (.strings (items.mergeSort fun a b => decide (a ≤ b)))
  | reverse, .strings items => .ok (.strings items.reverse)
  | text, .strings _ | text, .integers _ => .ok (.string v.toText)
  | size, .string s | length, .string s => .ok (count s.toList)
  | size, .strings items | length, .strings items => .ok (count items)
  | size, .integers items | length, .integers items => .ok (count items)
  | isEmpty, .string s => .ok (.boolean s.isEmpty)
  | isEmpty, .strings items => .ok (.boolean items.isEmpty)
  | isEmpty, .integers items => .ok (.boolean items.isEmpty)
  | _, v => .fail .traitType s!".{view} on {v.type}"

end Trait

end CommandScript
