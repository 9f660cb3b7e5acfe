import CommandScript.Trait

/-!
# Calendar days

Days of the Gregorian calendar, their number in the year and their weekday, the views that the date
traits give of them, and the moment that a script sees as the present.
-/

namespace CommandScript

/-- A day of the Gregorian calendar; months and days count from one. -/
structure Day where
  year : Int
  month : Nat
  day : Nat
  deriving DecidableEq, Repr

namespace Day

def isLeap (year : Int) : Bool :=
  year % 4 == 0 && (year % 100 != 0 || year % 400 == 0)

/-- Days of a common year before each month. -/
def daysBefore : List Nat :=
  [0, 31, 59, 90, 120, 151, 181, 212, 243, 273, 304, 334]

/-- The number of the day in its year, from one. -/
def dayOfYear (d : Day) : Nat :=
  (daysBefore.getD (d.month - 1) 0) + d.day + (if isLeap d.year && 2 < d.month then 1 else 0)

/-- Days since the last day of the year before year one, a Sunday. -/
def ordinal (d : Day) : Int :=
  let past := d.year - 1
  past * 365 + past / 4 - past / 100 + past / 400 + d.dayOfYear

/-- The weekday, Monday being zero. -/
def weekday (d : Day) : Nat :=
  ((d.ordinal - 1) % 7).toNat

def weekdayNames : List String :=
  ["Monday", "Tuesday", "Wednesday", "Thursday", "Friday", "Saturday", "Sunday"]

def monthNames : List String :=
  ["January", "February", "March", "April", "May", "June", "July", "August", "September",
    "October", "November", "December"]

/-- The view of a day that a date trait gives. -/
def view (d : Day) : Trait → Checked Value
  | .weekdayNumber => .ok (.integer (Int64.ofNat (d.weekday + 1)))
  | .dayOfMonth => .ok (.integer (Int64.ofNat d.day))
  | .dayOfYear => .ok (.integer (Int64.ofNat d.dayOfYear))
  | .monthNumber => .ok (.integer (Int64.ofNat d.month))
  | .weekday => .ok (.string (weekdayNames.getD d.weekday ""))
  | .month => .ok (.string (monthNames.getD (d.month - 1) ""))
  | other => .fail .traitType s!".{other} is not a date trait"

end Day

/-- The present, as the clock that a script is run under shows it. -/
structure Moment where
  day : Day
  hour : Nat
  minute : Nat
  second : Nat
  millisecond : Nat
  deriving DecidableEq, Repr

namespace Moment

/-- The digits of `n`, filled up with zeros on the left. -/
def padded (width n : Nat) : String :=
  String.ofList ((toString n).toList.leftpad width '0')

def dateText (m : Moment) : String :=
  s!"{padded 4 m.day.year.toNat}-{padded 2 m.day.month}-{padded 2 m.day.day}"

def timeText (m : Moment) : String :=
  s!"{padded 2 m.hour}:{padded 2 m.minute}:{padded 2 m.second}"

/-- The time of day to the millisecond. -/
def preciseText (m : Moment) : String :=
  s!"{m.timeText}.{padded 3 m.millisecond}"

/-- A moment to start from where no clock is at hand. -/
def epoch : Moment := ⟨⟨1970, 1, 1⟩, 0, 0, 0, 0⟩

end Moment

end CommandScript
