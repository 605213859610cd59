import Logbook.Level
import Logbook.Segment
import Logbook.Record.Entry
import Logbook.Record.Value
import Logbook.Text.Quoted
set_option autoImplicit false

/-!
# Records

A record is one event, kept as entries in a segment of bytes beside a table of strings. Both have a
fixed size. An entry that does not fit is not stored, and the record is cut: nothing is stored after
it until the record is reset. Copied text is the exception, of which the part that fits is kept.

The segment is never wiped. What an earlier event left behind lies beyond `position` and is written
over before it is read again.
-/
namespace Logbook

open Calendar Record

/-- A string table has at most this many strings, as an index is one byte. -/
def maxStringCapacity : Nat := 255

structure Label where
  text : String
  shared : Bool := false
  deriving DecidableEq

namespace Label

def describe (l : Label) : String :=
  (if l.shared then "Shared(" else "Static(") ++ Text.Quoted.encode l.text ++ ")"

end Label

structure Record where
  segment : Segment
  stringCapacity : Nat
  /-- Tells apart the records that one owner made. -/
  serial : Nat := 0
  position : Nat := 0
  strings : Array String := #[]
  truncated : Bool := false
  level : Level := .info
  timestamp : Instant := .epoch
  thread : Option String := none
  loggerName : Option Label := none
  exception : Option String := none

namespace Record

def create (segment : Segment) (stringCapacity : Nat) (serial : Nat := 0) : Record :=
  { segment, stringCapacity := min stringCapacity maxStringCapacity, serial }

def roomless : Record := create (Segment.zeroed 0) 0

def reset (r : Record) (loggerName : Option Label) (level : Level) (now : Instant)
    (thread : String) : Record :=
  { r with
    position := 0
    truncated := false
    strings := #[]
    level
    timestamp := now
    thread := some thread
    loggerName
    exception := none }

def attach (r : Record) (exception : String) : Record :=
  { r with exception := some exception }

def encoded (r : Record) : List UInt8 := r.segment.firstBytes r.position

def remaining (r : Record) : Nat := r.segment.size - r.position

def hasRoom (r : Record) (bytes slots : Nat) : Bool :=
  decide (bytes ≤ r.remaining) && decide (r.strings.size + slots ≤ r.stringCapacity)

def put (r : Record) (bytes : List UInt8) : Record :=
  { r with segment := r.segment.write r.position bytes, position := r.position + bytes.length }

def intern (r : Record) (strings : List String) : Record :=
  { r with strings := r.strings ++ strings }

def nextIndex (r : Record) : UInt8 := UInt8.ofNat r.strings.size

/-- Cuts the record, with an end marker if a byte is left. A record is cut only once. -/
def truncate (r : Record) : Record :=
  if r.truncated then r
  else if r.position < r.segment.size then
    { r.put [Tag.cut.code] with truncated := true }
  else { r with truncated := true }

def entryBytes (v : Value) (format : Option String) (index : UInt8) : List UInt8 :=
  let payload := v.payload (if format.isSome then index + 1 else index)
  (Header.mk payload.tag (format.map fun _ => index)).bytes ++ payload.bytes

/-- Stores a value with its format string whole, or cuts the record. -/
def appendEntry (r : Record) (v : Value) (format : Option String) : Record :=
  if r.truncated then r
  else
    let format := if v.takesFormat then format else none
    let extra := if format.isSome then 1 else 0
    if r.hasRoom (v.size + extra) (v.slots + extra) then
      (r.put (entryBytes v format r.nextIndex)).intern (format.toList ++ v.tableText?.toList)
    else r.truncate

def spanHeader : Nat := 1 + 4

/-- Stores the part of a span that fits. `fit` gives the bytes to keep of the room after the header;
the record is cut unless all are kept. An empty span needs room for its header. -/
def appendSpan (r : Record) (wrap : List UInt8 → Payload) (bytes : List UInt8) (fit : Nat → Nat) :
    Record :=
  if r.truncated then r
  else
    let kept :=
      if spanHeader + bytes.length ≤ r.remaining then bytes.length
      else if spanHeader < r.remaining then fit (r.remaining - spanHeader)
      else 0
    let headerFits := spanHeader + kept ≤ r.remaining
    let payload := wrap (bytes.take kept)
    let stored :=
      if headerFits ∧ (0 < kept ∨ bytes.length = 0) then
        r.put ((Header.mk payload.tag none).bytes ++ payload.bytes)
      else r
    if ¬headerFits ∨ kept < bytes.length then stored.truncate else stored

def fittingBytes (room : Nat) : List Char → Nat
  | [] => 0
  | c :: rest =>
    let taken := (Text.utf8.encode c).length
    if taken ≤ room then taken + fittingBytes (room - taken) rest else 0

/-- Stores a value; kinds without formats ignore the format string. -/
def append (r : Record) (v : Value) (format : Option String := none) : Record :=
  match v with
  | .span s => r.appendSpan .span (Text.Utf8.bytes s) fun room => fittingBytes room s.toList
  | .ascii bytes => r.appendSpan .ascii bytes fun room => room
  | v => r.appendEntry v format

/-- Stores a key and its value, both or neither. -/
def appendField (r : Record) (key : String) (v : Value) : Record :=
  if r.truncated then r
  else if r.hasRoom (2 + v.size) (1 + v.slots) then
    (r.put ((Header.mk .key none).bytes ++ [r.nextIndex] ++
      entryBytes v none (r.nextIndex + 1))).intern (key :: v.tableText?.toList)
  else r.truncate

def stringAt? (r : Record) (index : UInt8) : Option String := r.strings[index.toNat]?

def describe (r : Record) : String :=
  "LogMessage \x7b level: " ++ r.level.title ++
    ", logger_name: " ++
      (match r.loggerName with
       | some l => "Some(" ++ l.describe ++ ")"
       | none => "None") ++
    ", encoded_len: " ++ Number.decimalText r.position ++
    ", buffer_capacity: " ++ Number.decimalText r.segment.size ++
    ", strings: " ++ Number.decimalText r.strings.size ++
    ", truncated: " ++ (if r.truncated then "true" else "false") ++ " \x7d"

end Record
end Logbook
