/-!
# Calendar dates

Dates of the Gregorian calendar, extended to all years, and their day numbers. Day 0 is
1970-01-01. The year of a day is the last one that has begun by it, and so is the month.
-/

namespace SeriesPipeline.Calendar

structure Date where
  year : Int
  month : Nat
  day : Nat
  deriving DecidableEq

def isLeap (y : Int) : Bool := y % 4 = 0 && (y % 100 ≠ 0 || y % 400 = 0)

/-- Days from 0001-01-01 to the first of January of year `y`. -/
def daysBeforeYear (y : Int) : Int :=
  365 * (y - 1) + (y - 1) / 4 - (y - 1) / 100 + (y - 1) / 400

/-- Days from 0001-01-01 to 1970-01-01. -/
def epochDay : Int := 719162

def daysInMonth (leap : Bool) (month : Nat) : Nat :=
  match month with
  | 2 => if leap then 29 else 28
  | 4 | 6 | 9 | 11 => 30
  | _ => 31

/-- Days of the year before the first of a month. -/
def daysBeforeMonth (leap : Bool) : Nat → Nat
  | 0 | 1 => 0
  | month + 1 => daysBeforeMonth leap month + daysInMonth leap month

def Date.isValid (d : Date) : Bool :=
  1 ≤ d.month && d.month ≤ 12 && 1 ≤ d.day && d.day ≤ daysInMonth (isLeap d.year) d.month

def Date.dayNumber (d : Date) : Int :=
  daysBeforeYear d.year - epochDay + daysBeforeMonth (isLeap d.year) d.month + (d.day - 1 : Int)

/-- The year that day `n` after 0001-01-01 lies in. The mean length of a year gives it up to one
year too many or too few. -/
def yearOfDay (n : Int) : Int :=
  let guess := n * 400 / 146097 + 1
  if n < daysBeforeYear guess then guess - 1
  else if daysBeforeYear (guess + 1) ≤ n then guess + 1
  else guess

/-- The last month from `month` down that has begun by day `n` of the year. -/
def monthOfDay (leap : Bool) (n : Nat) : Nat → Nat
  | 0 => 1
  | month + 1 => if daysBeforeMonth leap (month + 1) ≤ n then month + 1 else monthOfDay leap n month

def Date.ofDayNumber (n : Int) : Date :=
  let day := n + epochDay
  let year := yearOfDay day
  let leap := isLeap year
  let rest := (day - daysBeforeYear year).toNat
  let month := monthOfDay leap rest 12
  ⟨year, month, rest - daysBeforeMonth leap month + 1⟩

end SeriesPipeline.Calendar
