set_option autoImplicit false

/-!
# Tags of encoded entries

Every entry begins with a tag byte. Its highest bit says that the index of a format string follows;
the others say what kind of entry it is. `payloadSize?` gives the length of the payloads that have
a fixed one; the others carry their length or end with an entry of their own.
-/
namespace Logbook.Record

inductive IntegerKind where
  | uint8
  | int8
  | int16
  | uint16
  | int32
  | uint32
  | int64
  | uint64
  | int128
  | uint128
  | uword
  | word
  deriving DecidableEq

namespace IntegerKind

/-- Size in bytes; words of the machine have eight. -/
def size : IntegerKind → Nat
  | .uint8 | .int8 => 1
  | .int16 | .uint16 => 2
  | .int32 | .uint32 => 4
  | .int64 | .uint64 | .uword | .word => 8
  | .int128 | .uint128 => 16

def width (kind : IntegerKind) : Nat := 8 * kind.size

def isSigned : IntegerKind → Bool
  | .int8 | .int16 | .int32 | .int64 | .int128 | .word => true
  | .uint8 | .uint16 | .uint32 | .uint64 | .uint128 | .uword => false

def value (kind : IntegerKind) (bits : BitVec kind.width) : Int :=
  if kind.isSigned then bits.toInt else bits.toNat

end IntegerKind

inductive Tag where
  | null
  | text
  | span
  | ascii
  | bool
  | char
  | integer (kind : IntegerKind)
  | float32
  | float64
  | decimal
  | identifier
  | instant
  | instantUtc
  | date
  | time
  | duration
  | enum
  | signedEnum
  | unmanaged
  | key
  | cut
  deriving DecidableEq

namespace Tag

def formatFlag : UInt8 := 0x80

def code : Tag → UInt8
  | .null => 1
  | .text => 2
  | .span => 3
  | .ascii => 4
  | .bool => 5
  | .integer .uint8 => 6
  | .integer .int8 => 7
  | .char => 8
  | .integer .int16 => 9
  | .integer .uint16 => 10
  | .integer .int32 => 11
  | .integer .uint32 => 12
  | .integer .int64 => 13
  | .integer .uint64 => 14
  | .integer .int128 => 15
  | .integer .uint128 => 16
  | .integer .uword => 17
  | .integer .word => 18
  | .float32 => 19
  | .float64 => 20
  | .decimal => 21
  | .identifier => 22
  | .instant => 23
  | .instantUtc => 24
  | .date => 25
  | .time => 26
  | .duration => 27
  | .enum => 28
  | .signedEnum => 29
  | .unmanaged => 30
  | .key => 31
  | .cut => 32

/-- All tags, in the order of their codes, which start at 1. -/
def all : List Tag :=
  [.null, .text, .span, .ascii, .bool, .integer .uint8, .integer .int8, .char, .integer .int16,
    .integer .uint16, .integer .int32, .integer .uint32, .integer .int64, .integer .uint64,
    .integer .int128, .integer .uint128, .integer .uword, .integer .word, .float32, .float64,
    .decimal, .identifier, .instant, .instantUtc, .date, .time, .duration, .enum, .signedEnum,
    .unmanaged, .key, .cut]

def ofCode? (code : UInt8) : Option Tag :=
  if code = 0 then none else all[code.toNat - 1]?

theorem ofCode?_code (tag : Tag) : ofCode? tag.code = some tag := by
  cases tag with
  | integer kind => cases kind <;> rfl
  | _ => rfl

theorem code_and_formatFlag (tag : Tag) : tag.code &&& formatFlag = 0 := by
  cases tag with
  | integer kind => cases kind <;> rfl
  | _ => rfl

def payloadSize? : Tag → Option Nat
  | .bool => some 1
  | .char | .float32 | .date => some 4
  | .integer kind => some kind.size
  | .float64 | .time => some 8
  | .instant | .instantUtc | .duration => some 12
  | .decimal | .identifier | .enum | .signedEnum => some 16
  | .null | .cut => some 0
  | .text | .span | .ascii | .unmanaged | .key => none

end Tag
end Logbook.Record
