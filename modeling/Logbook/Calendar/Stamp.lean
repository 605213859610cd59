import Logbook.Calendar.Time
import Logbook.Calendar.Pattern
import Logbook.Number.Digits
import Logbook.Text.Encoding
set_option autoImplicit false

/-!
# Texts of dates, times, instants and durations

A stamp is what a pattern can draw on: a day, a time, or both, in universal time or without a zone.
A pattern that asks for a part the stamp lacks prints nothing, and then, like a pattern that does
not parse or prints too much, it gives way to the default text: year, month and day, hours, minutes
and seconds, and as many groups of three fraction digits as are needed.
-/
namespace Logbook.Calendar

open Number

inductive Stamp where
  | date (d : Date)
  | time (t : Time)
  | zoneless (i : Instant)
  | utc (i : Instant)
  deriving DecidableEq

namespace Stamp

def day? : Stamp → Option Int
  | .date d => some d.number
  | .time _ => none
  | .zoneless i | .utc i => some i.date.number

def time? : Stamp → Option Time
  | .date _ => none
  | .time t => some t
  | .zoneless i | .utc i => some i.time

def isUtc : Stamp → Bool
  | .utc _ => true
  | _ => false

/-- Two digits; more than ninety-nine gets a character beyond the digits in the tens' place. -/
def twoDigits (padding : Padding) (n : Nat) : List Char :=
  let ones := Char.ofNat (48 + n % 10)
  match n / 10, padding with
  | 0, .none => [ones]
  | 0, .blank => [' ', ones]
  | tens, _ => [Char.ofNat (48 + tens), ones]

/-- A number in `width` characters, one more if its sign is always shown. -/
def wideNumber (width : Nat) (showSign : Bool) (padding : Padding) (n : Int) : List Char :=
  let sign := if n < 0 then ['-'] else if showSign then ['+'] else []
  let width := if showSign then width + 1 else width
  let digits := decimal n.natAbs
  match padding with
  | .none => sign ++ digits
  | .zero => sign ++ zeroPad (width - sign.length) digits
  | .blank => List.replicate (width - (sign ++ digits).length) ' ' ++ sign ++ digits

/-- Four digits; years outside of 0 to 9999 always show their sign. -/
def yearText (padding : Padding) (year : Int) : List Char :=
  wideNumber 4 (decide (year < 0) || decide (9999 < year)) padding year

/-- The last eight bits of a century. -/
def centuryOf (year : Int) : Nat := (year / 100 % 256).toNat

def yearOfCentury (year : Int) : Nat := (year % 100).toNat

def numericText (stamp : Stamp) (padding : Padding) : NumericField → Option (List Char)
  | .year => stamp.day?.map fun d => yearText padding (Day.year d)
  | .century => stamp.day?.map fun d => twoDigits padding (centuryOf (Day.year d))
  | .yearOfCentury => stamp.day?.map fun d => twoDigits padding (yearOfCentury (Day.year d))
  | .isoYear => stamp.day?.map fun d => yearText padding (Day.isoYear d)
  | .isoYearOfCentury =>
    stamp.day?.map fun d => twoDigits padding (yearOfCentury (Day.isoYear d))
  | .quarter => stamp.day?.map fun d => decimal (Day.quarter d)
  | .month => stamp.day?.map fun d => twoDigits padding (Day.month d)
  | .day => stamp.day?.map fun d => twoDigits padding (Day.dayOfMonth d)
  | .weekFromSunday =>
    stamp.day?.map fun d => twoDigits padding (Day.weekOfYear d (Day.sinceSunday d))
  | .weekFromMonday =>
    stamp.day?.map fun d => twoDigits padding (Day.weekOfYear d (Day.sinceMonday d))
  | .isoWeek => stamp.day?.map fun d => twoDigits padding (Day.isoWeek d)
  | .daysSinceSunday => stamp.day?.map fun d => decimal (Day.sinceSunday d)
  | .weekdayFromMonday => stamp.day?.map fun d => decimal (Day.sinceMonday d + 1)
  | .ordinal => stamp.day?.map fun d => wideNumber 3 false padding (Day.ordinal d)
  | .hour => stamp.time?.map fun t => twoDigits padding t.hour
  | .hour12 => stamp.time?.map fun t => twoDigits padding t.hour12
  | .minute => stamp.time?.map fun t => twoDigits padding t.minute
  | .second => stamp.time?.map fun t => twoDigits padding t.secondOfMinute
  | .nanosecond => stamp.time?.map fun t => wideNumber 9 false padding t.subsecond
  | .timestamp =>
    match stamp with
    | .zoneless i | .utc i => some (wideNumber 9 false padding i.seconds)
    | _ => none

def monthNames : List String :=
  ["January", "February", "March", "April", "May", "June", "July", "August", "September",
    "October", "November", "December"]

def weekdayNames : List String :=
  ["Monday", "Tuesday", "Wednesday", "Thursday", "Friday", "Saturday", "Sunday"]

def monthName (day : Int) : List Char := (monthNames.getD (Day.month day - 1) "").toList

def weekdayName (day : Int) : List Char := (weekdayNames.getD (Day.sinceMonday day) "").toList

def nanosDigits (digits nanos : Nat) : List Char :=
  zeroPad digits (decimal (nanos / Nat.pow 10 (9 - digits)))

/-- A point and three, six or nine digits; nothing for a whole second. -/
def fractionText (nanos : Nat) : List Char :=
  if nanos = 0 then []
  else if nanos % 1000000 = 0 then '.' :: nanosDigits 3 nanos
  else if nanos % 1000 = 0 then '.' :: nanosDigits 6 nanos
  else '.' :: nanosDigits 9 nanos

def dayText (day : Int) : List Char :=
  yearText .zero (Day.year day) ++ '-' :: twoDigits .zero (Day.month day) ++
    '-' :: twoDigits .zero (Day.dayOfMonth day)

def timeText (t : Time) : List Char :=
  twoDigits .zero t.hour ++ ':' :: twoDigits .zero t.minute ++
    ':' :: twoDigits .zero t.secondOfMinute ++ fractionText t.subsecond

def plain : Stamp → List Char
  | .date d => dayText d.number
  | .time t => timeText t
  | .zoneless i => dayText i.date.number ++ ' ' :: timeText i.time
  | .utc i => dayText i.date.number ++ ' ' :: timeText i.time ++ " UTC".toList

def offsetText : OffsetStyle → List Char
  | .minutes => "+0000".toList
  | .colonMinutes => "+00:00".toList
  | .colonSeconds => "+00:00:00".toList
  | .hours => "+00".toList

def itemText (stamp : Stamp) : Item → Option (List Char)
  | .literal c => some [c]
  | .numeric field padding => stamp.numericText padding field
  | .shortMonth => stamp.day?.map fun d => (monthName d).take 3
  | .longMonth => stamp.day?.map monthName
  | .shortWeekday => stamp.day?.map fun d => (weekdayName d).take 3
  | .longWeekday => stamp.day?.map weekdayName
  | .upperHalfDay => stamp.time?.map fun t => if t.isAfternoon then ['P', 'M'] else ['A', 'M']
  | .lowerHalfDay => stamp.time?.map fun t => if t.isAfternoon then ['p', 'm'] else ['a', 'm']
  | .fraction => stamp.time?.map fun t => fractionText t.subsecond
  | .fractionDigits point digits =>
    stamp.time?.map fun t =>
      if point then '.' :: nanosDigits digits t.subsecond else nanosDigits digits t.subsecond
  | .zoneName => if stamp.isUtc then some "UTC".toList else none
  | .offset style => if stamp.isUtc then some (offsetText style) else none
  | .anyOffset => none
  | .rfc3339 =>
    match stamp with
    | .utc i => some (dayText i.date.number ++ 'T' :: timeText i.time ++ "+00:00".toList)
    | _ => none

def itemsText (stamp : Stamp) : List Item → Option (List Char)
  | [] => some []
  | item :: rest =>
    match stamp.itemText item, stamp.itemsText rest with
    | some text, some more => some (text ++ more)
    | _, _ => none

def scratchSize : Nat := 512

def patterned? (stamp : Stamp) (pattern : String) : Option (List Char) :=
  match (Pattern.parse? pattern).bind stamp.itemsText with
  | some text =>
    if (Text.utf8.encodeChars text).length ≤ scratchSize then some text else none
  | none => none

def format (stamp : Stamp) (format : Option String) : List Char :=
  ((format.bind stamp.patterned?).getD stamp.plain)

end Stamp

/-- A duration of so many seconds and nanoseconds: a sign, days and a point if there are any, hours,
minutes, seconds, and nine fraction digits if there are nanoseconds. -/
def durationText (seconds nanos : Int) : List Char :=
  let total := seconds.natAbs
  signed (seconds < 0 || nanos < 0)
    ((if 86400 ≤ total then decimal (total / 86400) ++ ['.'] else []) ++
      zeroPad 2 (decimal (total / 3600 % 24)) ++ ':' :: zeroPad 2 (decimal (total / 60 % 60)) ++
      ':' :: zeroPad 2 (decimal (total % 60)) ++
      (if nanos ≠ 0 then '.' :: zeroPad 9 (decimal nanos.natAbs) else []))

end Logbook.Calendar
