import Logbook.Record.Payload
import Logbook.Registry
import Logbook.Calendar.Time
import Logbook.Text.Encoding
set_option autoImplicit false

/-!
# Values that can be logged

A value is what a producer hands over; appending it copies it into an entry without turning it into
text. Each kind declares beforehand how many bytes its entry takes and how many strings it adds to
the table, and `length_bytes_payload` says that its payload takes exactly the declared bytes.
-/
namespace Logbook.Record

open Calendar Number

/-- A value copied as raw bytes: some parts are written over zeros, so bytes that no part covers are
zero. -/
structure RawValue where
  token : TypeToken
  size : Nat
  /-- Offsets and the bytes written there. -/
  parts : List (Nat × List UInt8)
  parts_within : ∀ part ∈ parts, part.1 + part.2.length ≤ size

namespace RawValue

def ofParts? (token : TypeToken) (size : Nat) (parts : List (Nat × List UInt8)) :
    Option RawValue :=
  if h : ∀ part ∈ parts, part.1 + part.2.length ≤ size then some ⟨token, size, parts, h⟩ else none

def overlay (raw : List UInt8) (part : Nat × List UInt8) : List UInt8 :=
  raw.take part.1 ++ part.2 ++ raw.drop (part.1 + part.2.length)

def bytes (v : RawValue) : List UInt8 :=
  v.parts.foldl overlay (List.replicate v.size 0)

theorem length_overlay {raw : List UInt8} {part : Nat × List UInt8}
    (h : part.1 + part.2.length ≤ raw.length) : (overlay raw part).length = raw.length := by
  simp only [overlay, List.length_append, List.length_take, List.length_drop]
  omega

theorem length_foldl_overlay {size : Nat} (parts : List (Nat × List UInt8))
    (hp : ∀ part ∈ parts, part.1 + part.2.length ≤ size) (raw : List UInt8)
    (hr : raw.length = size) : (parts.foldl overlay raw).length = size := by
  induction parts generalizing raw with
  | nil => exact hr
  | cons part parts ih =>
    have hpart := hp part (by simp)
    have hl : (overlay raw part).length = size := by
      rw [length_overlay (by omega), hr]
    exact ih (fun p h => hp p (by simp [h])) _ hl

theorem length_bytes (v : RawValue) : v.bytes.length = v.size :=
  length_foldl_overlay v.parts v.parts_within _ (by simp)

end RawValue

inductive Value where
  | null
  /-- Text that is shared and goes to the string table. -/
  | text (s : String)
  /-- Text that is copied into the entry. -/
  | span (s : String)
  | ascii (bytes : List UInt8)
  | bool (b : Bool)
  | char (c : Char)
  | integer (kind : IntegerKind) (bits : BitVec kind.width)
  | float32 (bits : BitVec 32)
  | float64 (bits : BitVec 64)
  | decimal (d : Decimal96)
  | identifier (id : Identifier)
  | instant (utc : Bool) (i : Instant)
  | date (d : Date)
  | time (t : Time)
  | duration (d : Duration)
  | enum (type : EnumType) (bits : BitVec 64)
  | unmanaged (v : RawValue)

namespace Value

def ofOption : Option Value → Value
  | some v => v
  | none => .null

def ofInt (kind : IntegerKind) (n : Int) : Value := .integer kind (BitVec.ofInt _ n)

def asciiByte (c : Char) : UInt8 :=
  if c.toNat < 128 then UInt8.ofNat c.toNat else 63

def asciiChars (cs : List Char) : Value := .ascii (cs.map asciiByte)

def size : Value → Nat
  | .null => 1
  | .text _ => 1 + 1
  | .span s => 1 + 4 + (Text.Utf8.bytes s).length
  | .ascii bytes => 1 + 4 + bytes.length
  | .bool _ => 1 + 1
  | .char _ => 1 + 4
  | .integer kind _ => 1 + kind.size
  | .float32 _ => 1 + 4
  | .float64 _ => 1 + 8
  | .decimal _ | .identifier _ => 1 + 16
  | .instant .. => 1 + 12
  | .date _ => 1 + 4
  | .time _ => 1 + 8
  | .duration _ => 1 + 12
  | .enum .. => 1 + (8 + 8)
  | .unmanaged v => 1 + (8 + 4 + v.size)

def tableText? : Value → Option String
  | .text s => some s
  | _ => none

def slots : Value → Nat
  | .text _ => 1
  | _ => 0

def takesFormat : Value → Bool
  | .integer .. | .float32 _ | .float64 _ | .decimal _ | .identifier _ | .instant .. | .date _
  | .time _ | .enum .. | .unmanaged _ => true
  | .null | .text _ | .span _ | .ascii _ | .bool _ | .char _ | .duration _ => false

def decimalFlags (d : Decimal96) : Nat :=
  (if d.negative then 0x8000_0000 else 0) + d.scale * 0x1_0000

def payload (index : UInt8) : Value → Payload
  | .null => .null
  | .text _ => .text index
  | .span s => .span (Text.Utf8.bytes s)
  | .ascii bytes => .ascii bytes
  | .bool b => .bool (if b then 1 else 0)
  | .char c => .char (BitVec.ofNat 32 c.toNat)
  | .integer kind bits => .integer kind bits
  | .float32 bits => .float32 bits
  | .float64 bits => .float64 bits
  | .decimal d =>
    .decimal (BitVec.ofNat 32 (decimalFlags d)) (BitVec.ofNat 32 d.coefficient)
      (BitVec.ofNat 32 (d.coefficient / 0x1_00000000))
      (BitVec.ofNat 32 (d.coefficient / 0x1_00000000_00000000))
  | .identifier id => .identifier id
  | .instant utc i => .instant utc (BitVec.ofInt 64 i.seconds) (BitVec.ofNat 32 i.time.nanos)
  | .date d => .date (BitVec.ofInt 32 d.number)
  | .time t => .time (BitVec.ofNat 32 t.second) (BitVec.ofNat 32 t.nanos)
  | .duration d => .duration (BitVec.ofInt 64 d.seconds) (BitVec.ofInt 32 d.subsecond)
  | .enum type bits => .enum type.signed type.token bits
  | .unmanaged v => .unmanaged v.token v.bytes

theorem length_bytes_payload (v : Value) (index : UInt8) :
    1 + (v.payload index).bytes.length = v.size := by
  cases v with
  | identifier id => simp [payload, size, Payload.bytes, id.length_eq]
  | unmanaged v =>
    simp only [payload, size, Payload.bytes, Payload.spanBytes, wordBytes, List.length_append,
      length_toBytes, RawValue.length_bytes]
    omega
  | span s =>
    simp only [payload, size, Payload.bytes, Payload.spanBytes, List.length_append,
      length_toBytes]
    omega
  | ascii bytes =>
    simp only [payload, size, Payload.bytes, Payload.spanBytes, List.length_append,
      length_toBytes]
    omega
  | _ => simp [payload, size, Payload.bytes, wordBytes]

theorem slots_eq (v : Value) : v.slots = v.tableText?.toList.length := by
  cases v <;> rfl

end Value
end Logbook.Record
