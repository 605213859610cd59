import Logbook.Calendar.Date
set_option autoImplicit false

/-!
# Times of day, instants and durations

A time is a second of the day and nanoseconds; from a billion nanoseconds on it lies in a leap
second that follows the given second. Any second may carry such nanoseconds, but `ofParts?` accepts
them only in the last second of a minute. An instant is a day and a time, counted in seconds from
the first of January 1970. A duration is a number of nanoseconds.
-/
namespace Logbook.Calendar

def billion : Nat := 1000000000

structure Time where
  second : Nat
  nanos : Nat
  second_lt : second < 86400 := by decide
  nanos_lt : nanos < 2 * billion := by decide
  deriving DecidableEq

namespace Time

/-- A time, with leap seconds only at the end of a minute. -/
def ofParts? (second nanos : Nat) : Option Time :=
  if h : second < 86400 ∧ nanos < 2 * billion then
    if nanos < billion ∨ second % 60 = 59 then some ⟨second, nanos, h.1, h.2⟩ else none
  else none

def hour (t : Time) : Nat := t.second / 3600

def minute (t : Time) : Nat := t.second / 60 % 60

/-- Second of the minute; 60 in a leap second. -/
def secondOfMinute (t : Time) : Nat := t.second % 60 + t.nanos / billion

def subsecond (t : Time) : Nat := t.nanos % billion

def hour12 (t : Time) : Nat := if t.hour % 12 = 0 then 12 else t.hour % 12

def isAfternoon (t : Time) : Bool := 12 ≤ t.hour

end Time

def epochDay : Int := 719163

structure Instant where
  date : Date
  time : Time
  deriving DecidableEq

namespace Instant

/-- Seconds since the start of 1970, the leap second not counted. -/
def seconds (i : Instant) : Int := (i.date.number - epochDay) * 86400 + i.time.second

def ofSeconds? (seconds : Int) (nanos : Nat) : Option Instant :=
  match Date.ofNumber? (seconds / 86400 + epochDay) with
  | some date => (Time.ofParts? (seconds % 86400).toNat nanos).map (⟨date, ·⟩)
  | none => none

def epoch : Instant := ⟨⟨719163, by decide, by decide⟩, ⟨0, 0, by decide, by decide⟩⟩

end Instant

def maxMilliseconds : Int := 0x7fff_ffff_ffff_ffff

structure Duration where
  nanoseconds : Int
  least_le : -(maxMilliseconds * 1000000) ≤ nanoseconds := by decide
  le_greatest : nanoseconds ≤ maxMilliseconds * 1000000 := by decide
  deriving DecidableEq

namespace Duration

def ofNanoseconds? (n : Int) : Option Duration :=
  if h : -(maxMilliseconds * 1000000) ≤ n ∧ n ≤ maxMilliseconds * 1000000 then
    some ⟨n, h.1, h.2⟩
  else none

def seconds (d : Duration) : Int := d.nanoseconds.tdiv billion

/-- Nanoseconds beyond the whole seconds, with the sign of the duration. -/
def subsecond (d : Duration) : Int := d.nanoseconds.tmod billion

end Duration
end Logbook.Calendar
