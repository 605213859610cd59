set_option autoImplicit false

/-!
# Patterns of dates and times

A pattern is text with directives: a percent sign and a letter, between them possibly a padding
(`-` none, `_` blanks, `0` zeros), a number of fraction digits or colons. `parse?` reads a pattern
character by character and refuses the whole pattern if any directive is unknown or cut off. What
the fields print is in the module of stamps.
-/
namespace Logbook.Calendar

inductive Padding where
  | none
  | zero
  | blank
  deriving DecidableEq

inductive NumericField where
  | year
  | century
  | yearOfCentury
  | isoYear
  | isoYearOfCentury
  | quarter
  | month
  | day
  | weekFromSunday
  | weekFromMonday
  | isoWeek
  | daysSinceSunday
  | weekdayFromMonday
  | ordinal
  | hour
  | hour12
  | minute
  | second
  | nanosecond
  | timestamp
  deriving DecidableEq

inductive OffsetStyle where
  | minutes
  | colonMinutes
  | colonSeconds
  | hours
  deriving DecidableEq

inductive Item where
  | literal (c : Char)
  | numeric (field : NumericField) (padding : Padding)
  | shortMonth
  | longMonth
  | shortWeekday
  | longWeekday
  | upperHalfDay
  | lowerHalfDay
  /-- A point and as many groups of three digits as the nanoseconds need; nothing for none. -/
  | fraction
  /-- Leading digits of the nanoseconds, after a point if `point`. -/
  | fractionDigits (point : Bool) (digits : Nat)
  | zoneName
  | offset (style : OffsetStyle)
  /-- Accepted in a pattern but never printable. -/
  | anyOffset
  | rfc3339
  deriving DecidableEq

namespace Pattern

def zero (field : NumericField) : Item := .numeric field .zero

def blank (field : NumericField) : Item := .numeric field .blank

def slashDate : List Item :=
  [zero .month, .literal '/', zero .day, .literal '/', zero .yearOfCentury]

def hourMinute : List Item := [zero .hour, .literal ':', zero .minute]

def clock : List Item := hourMinute ++ [.literal ':', zero .second]

def clock12 : List Item :=
  [zero .hour12, .literal ':', zero .minute, .literal ':', zero .second, .literal ' ',
    .upperHalfDay]

def directive? : Char → Option (List Item)
  | 'A' => some [.longWeekday]
  | 'B' => some [.longMonth]
  | 'C' => some [zero .century]
  | 'D' | 'x' => some slashDate
  | 'F' => some [zero .year, .literal '-', zero .month, .literal '-', zero .day]
  | 'G' => some [zero .isoYear]
  | 'H' => some [zero .hour]
  | 'I' => some [zero .hour12]
  | 'M' => some [zero .minute]
  | 'P' => some [.lowerHalfDay]
  | 'R' => some hourMinute
  | 'S' => some [zero .second]
  | 'T' | 'X' => some clock
  | 'U' => some [zero .weekFromSunday]
  | 'V' => some [zero .isoWeek]
  | 'W' => some [zero .weekFromMonday]
  | 'Y' => some [zero .year]
  | 'Z' => some [.zoneName]
  | 'a' => some [.shortWeekday]
  | 'b' | 'h' => some [.shortMonth]
  | 'c' => some ([.shortWeekday, .literal ' ', .shortMonth, .literal ' ', blank .day, .literal ' ']
      ++ clock ++ [.literal ' ', zero .year])
  | 'd' => some [zero .day]
  | 'e' => some [blank .day]
  | 'f' => some [zero .nanosecond]
  | 'g' => some [zero .isoYearOfCentury]
  | 'j' => some [zero .ordinal]
  | 'k' => some [blank .hour]
  | 'l' => some [blank .hour12]
  | 'm' => some [zero .month]
  | 'n' => some [.literal '\n']
  | 'p' => some [.upperHalfDay]
  | 'q' => some [.numeric .quarter .none]
  | 'r' => some clock12
  | 's' => some [.numeric .timestamp .none]
  | 't' => some [.literal '\t']
  | 'u' => some [.numeric .weekdayFromMonday .none]
  | 'v' => some [blank .day, .literal '-', .shortMonth, .literal '-', zero .year]
  | 'w' => some [.numeric .daysSinceSunday .none]
  | 'y' => some [zero .yearOfCentury]
  | 'z' => some [.offset .minutes]
  | '+' => some [.rfc3339]
  | '%' => some [.literal '%']
  | _ => none

inductive Place where
  | text
  | percent
  /-- After a padding, which only a single numeric field may follow. -/
  | padded (padding : Padding)
  | alternate
  | point
  | digits (point : Bool) (count : Nat)
  | colons (count : Nat)
  deriving DecidableEq

/-- Reads one character: the next place and the items that are complete. -/
def step : Place → Char → Option (Place × List Item)
  | .text, c => if c = '%' then some (.percent, []) else some (.text, [.literal c])
  | .percent, '-' => some (.padded .none, [])
  | .percent, '0' => some (.padded .zero, [])
  | .percent, '_' => some (.padded .blank, [])
  | .percent, '#' => some (.alternate, [])
  | .percent, '.' => some (.point, [])
  | .percent, '3' => some (.digits false 3, [])
  | .percent, '6' => some (.digits false 6, [])
  | .percent, '9' => some (.digits false 9, [])
  | .percent, ':' => some (.colons 1, [])
  | .percent, c => (directive? c).map (.text, ·)
  | .padded padding, c =>
    match directive? c with
    | some [.numeric field _] => some (.text, [.numeric field padding])
    | _ => none
  | .alternate, c => if c = 'z' then some (.text, [.anyOffset]) else none
  | .point, 'f' => some (.text, [.fraction])
  | .point, '3' => some (.digits true 3, [])
  | .point, '6' => some (.digits true 6, [])
  | .point, '9' => some (.digits true 9, [])
  | .point, _ => none
  | .digits point count, c =>
    if c = 'f' then some (.text, [.fractionDigits point count]) else none
  | .colons 1, 'z' => some (.text, [.offset .colonMinutes])
  | .colons 2, 'z' => some (.text, [.offset .colonSeconds])
  | .colons 3, 'z' => some (.text, [.offset .hours])
  | .colons count, c => if c = ':' ∧ count < 3 then some (.colons (count + 1), []) else none

def parseFrom? (place : Place) : List Char → Option (List Item)
  | [] => if place = .text then some [] else none
  | c :: rest =>
    match step place c with
    | some (next, items) => (parseFrom? next rest).map (items ++ ·)
    | none => none

def parse? (pattern : String) : Option (List Item) :=
  parseFrom? .text pattern.toList

end Pattern
end Logbook.Calendar
