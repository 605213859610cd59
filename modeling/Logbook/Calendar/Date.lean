set_option autoImplicit false

/-!
# Days of the proleptic Gregorian calendar

A day is a number: the first of January of year 1 is day 1. Years follow a cycle of 400 with 146097
days; year 0 precedes year 1 and is a leap year. Weeks start on Monday or Sunday as the field asks,
and the ISO week belongs to the year of its Thursday.

The functions on day numbers have no range. A `Date` is a day of the years from -262143 to 262142.
-/
namespace Logbook.Calendar

namespace Day

def cycleDays : Nat := 146097

/-- Leap years among the first `year` years of a cycle. -/
def leapsBefore (year : Nat) : Nat := (year + 3) / 4 - (year + 99) / 100 + (year + 399) / 400

def cycleStart (year : Nat) : Nat := 365 * year + leapsBefore year

/-- Position of a day in its cycle; the first of January of year 0 has position 0. -/
def position (day : Int) : Nat := ((day + 365) % cycleDays).toNat

def cycleYear (position : Nat) : Nat :=
  let year := position / 365
  if position < cycleStart year then year - 1 else year

def year (day : Int) : Int :=
  (day + 365) / cycleDays * 400 + cycleYear (position day)

def ordinal (day : Int) : Nat :=
  position day - cycleStart (cycleYear (position day)) + 1

def isLeap (year : Int) : Bool :=
  year % 4 = 0 && (year % 100 ≠ 0 || year % 400 = 0)

def monthLengths (leap : Bool) : List Nat :=
  [31, if leap then 29 else 28, 31, 30, 31, 30, 31, 31, 30, 31, 30, 31]

/-- Month and day of the month of a day of the year, counting months from `month`. -/
def monthDay (month : Nat) (ordinal : Nat) : List Nat → Nat × Nat
  | [] => (month, ordinal)
  | length :: rest =>
    if ordinal ≤ length then (month, ordinal) else monthDay (month + 1) (ordinal - length) rest

def monthAndDay (day : Int) : Nat × Nat :=
  monthDay 1 (ordinal day) (monthLengths (isLeap (year day)))

def month (day : Int) : Nat := (monthAndDay day).1

def dayOfMonth (day : Int) : Nat := (monthAndDay day).2

def quarter (day : Int) : Nat := (month day - 1) / 3 + 1

def sinceSunday (day : Int) : Nat := (day % 7).toNat

def sinceMonday (day : Int) : Nat := ((day - 1) % 7).toNat

/-- Weeks of the year that have begun by the day, the days before the first week start being in
week 0; `since` counts the days since the week began. -/
def weekOfYear (day : Int) (since : Nat) : Nat := (ordinal day + 6 - since) / 7

def thursday (day : Int) : Int := day - sinceMonday day + 3

def isoYear (day : Int) : Int := year (thursday day)

def isoWeek (day : Int) : Nat := (ordinal (thursday day) - 1) / 7 + 1

def firstOfYear (year : Int) : Int :=
  365 * (year - 1) + (year - 1) / 4 - (year - 1) / 100 + (year - 1) / 400 + 1

end Day

def leastYear : Int := -262143

def greatestYear : Int := 262142

structure Date where
  number : Int
  least_le : Day.firstOfYear leastYear ≤ number := by decide
  lt_next : number < Day.firstOfYear (greatestYear + 1) := by decide
  deriving DecidableEq

namespace Date

def ofNumber? (number : Int) : Option Date :=
  if h : Day.firstOfYear leastYear ≤ number ∧ number < Day.firstOfYear (greatestYear + 1) then
    some ⟨number, h.1, h.2⟩
  else none

theorem ofNumber?_number (d : Date) : ofNumber? d.number = some d := by
  simp [ofNumber?, d.least_le, d.lt_next]

end Date
end Logbook.Calendar
