import Logbook.Record.Bytes
import Logbook.Record.Tag
import Logbook.Identifier
import Logbook.Number.Decimal96
set_option autoImplicit false

/-!
# Payloads of entries

A payload is what the bytes after a tag say, whatever they are: it may name a string that is not in
the table, a character code that is none, or a second that no day has. `bytes` writes a payload and
`take?` reads one from the front of some bytes; `take?_bytes` says that reading returns what was
written and stops where it ended. What a payload means is in the module of presentations.
-/
namespace Logbook.Record

inductive Payload where
  | null
  | text (index : UInt8)
  | span (bytes : List UInt8)
  | ascii (bytes : List UInt8)
  | bool (byte : UInt8)
  | char (code : BitVec 32)
  | integer (kind : IntegerKind) (bits : BitVec kind.width)
  | float32 (bits : BitVec 32)
  | float64 (bits : BitVec 64)
  /-- Sign and scale, then the coefficient from its lowest word. -/
  | decimal (flags low mid high : BitVec 32)
  | identifier (id : Identifier)
  | instant (utc : Bool) (seconds : BitVec 64) (nanos : BitVec 32)
  | date (number : BitVec 32)
  | time (second nanos : BitVec 32)
  | duration (seconds : BitVec 64) (nanos : BitVec 32)
  | enum (signed : Bool) (token bits : BitVec 64)
  | unmanaged (token : BitVec 64) (raw : List UInt8)

namespace Payload

def tag : Payload → Tag
  | .null => .null
  | .text _ => .text
  | .span _ => .span
  | .ascii _ => .ascii
  | .bool _ => .bool
  | .char _ => .char
  | .integer kind _ => .integer kind
  | .float32 _ => .float32
  | .float64 _ => .float64
  | .decimal .. => .decimal
  | .identifier _ => .identifier
  | .instant utc .. => if utc then .instantUtc else .instant
  | .date _ => .date
  | .time .. => .time
  | .duration .. => .duration
  | .enum signed .. => if signed then .signedEnum else .enum
  | .unmanaged .. => .unmanaged

def spanBytes (bytes : List UInt8) : List UInt8 :=
  toBytes 4 bytes.length ++ bytes

def bytes : Payload → List UInt8
  | .null => []
  | .text index => [index]
  | .span bytes | .ascii bytes => spanBytes bytes
  | .bool byte => [byte]
  | .char code => wordBytes 4 code
  | .integer kind bits => wordBytes kind.size bits
  | .float32 bits => wordBytes 4 bits
  | .float64 bits => wordBytes 8 bits
  | .decimal flags low mid high =>
    wordBytes 4 flags ++ wordBytes 4 low ++ wordBytes 4 mid ++ wordBytes 4 high
  | .identifier id => id.bytes
  | .instant _ seconds nanos => wordBytes 8 seconds ++ wordBytes 4 nanos
  | .date number => wordBytes 4 number
  | .time second nanos => wordBytes 4 second ++ wordBytes 4 nanos
  | .duration seconds nanos => wordBytes 8 seconds ++ wordBytes 4 nanos
  | .enum _ token bits => wordBytes 8 token ++ wordBytes 8 bits
  | .unmanaged token raw => wordBytes 8 token ++ spanBytes raw

/-- The payload that follows a tag, and the bytes after it. Keys and end markers have none. -/
def take? (tag : Tag) (data : List UInt8) : Option (Payload × List UInt8) := do
  match tag with
  | .null => return (.null, data)
  | .text =>
    let (index, data) ← takeByte data
    return (.text index, data)
  | .span =>
    let (bytes, data) ← takeSpan data
    return (.span bytes, data)
  | .ascii =>
    let (bytes, data) ← takeSpan data
    return (.ascii bytes, data)
  | .bool =>
    let (byte, data) ← takeByte data
    return (.bool byte, data)
  | .char =>
    let (code, data) ← takeWord 4 data
    return (.char code, data)
  | .integer kind =>
    let (bits, data) ← takeWord kind.size data
    return (.integer kind bits, data)
  | .float32 =>
    let (bits, data) ← takeWord 4 data
    return (.float32 bits, data)
  | .float64 =>
    let (bits, data) ← takeWord 8 data
    return (.float64 bits, data)
  | .decimal =>
    let (flags, data) ← takeWord 4 data
    let (low, data) ← takeWord 4 data
    let (mid, data) ← takeWord 4 data
    let (high, data) ← takeWord 4 data
    return (.decimal flags low mid high, data)
  | .identifier =>
    let (bytes, data) ← takeBytes 16 data
    let id ← Identifier.ofBytes? bytes
    return (.identifier id, data)
  | .instant =>
    let (seconds, data) ← takeWord 8 data
    let (nanos, data) ← takeWord 4 data
    return (.instant false seconds nanos, data)
  | .instantUtc =>
    let (seconds, data) ← takeWord 8 data
    let (nanos, data) ← takeWord 4 data
    return (.instant true seconds nanos, data)
  | .date =>
    let (number, data) ← takeWord 4 data
    return (.date number, data)
  | .time =>
    let (second, data) ← takeWord 4 data
    let (nanos, data) ← takeWord 4 data
    return (.time second nanos, data)
  | .duration =>
    let (seconds, data) ← takeWord 8 data
    let (nanos, data) ← takeWord 4 data
    return (.duration seconds nanos, data)
  | .enum =>
    let (token, data) ← takeWord 8 data
    let (bits, data) ← takeWord 8 data
    return (.enum false token bits, data)
  | .signedEnum =>
    let (token, data) ← takeWord 8 data
    let (bits, data) ← takeWord 8 data
    return (.enum true token bits, data)
  | .unmanaged =>
    let (token, data) ← takeWord 8 data
    let (raw, data) ← takeSpan data
    return (.unmanaged token raw, data)
  | .key | .cut => none

/-- Spans are shorter than four gigabytes, which is what their length field can say. -/
def Storable : Payload → Prop
  | .span bytes | .ascii bytes | .unmanaged _ bytes => bytes.length < 0x1_0000_0000
  | _ => True

theorem takeSpan_spanBytes {bytes : List UInt8} (h : bytes.length < 0x1_0000_0000)
    (rest : List UInt8) : takeSpan (spanBytes bytes ++ rest) = some (bytes, rest) := by
  have hw := takeWord_wordBytes 4 (BitVec.ofNat (8 * 4) bytes.length) (bytes ++ rest)
  have hn : (BitVec.ofNat (8 * 4) bytes.length).toNat = bytes.length := by
    simp only [BitVec.toNat_ofNat]
    exact Nat.mod_eq_of_lt h
  rw [wordBytes, hn] at hw
  simp only [takeSpan, spanBytes, List.append_assoc, hw, hn, takeBytes_append]

theorem take?_bytes (payload : Payload) (h : payload.Storable) (rest : List UInt8) :
    take? payload.tag (payload.bytes ++ rest) = some (payload, rest) := by
  cases payload with
  | identifier id =>
    have ht := takeBytes_append id.bytes rest
    rw [id.length_eq] at ht
    simp [take?, tag, bytes, ht, Identifier.ofBytes?, id.length_eq]
  | integer kind bits =>
    have hw := takeWord_wordBytes kind.size bits rest
    change (takeWord kind.size (wordBytes kind.size bits ++ rest)).bind _ = _
    rw [hw]
    rfl
  | span s => simp [take?, tag, bytes, takeSpan_spanBytes h]
  | ascii s => simp [take?, tag, bytes, takeSpan_spanBytes h]
  | unmanaged token raw =>
    simp [take?, tag, bytes, takeWord_wordBytes, takeSpan_spanBytes h]
  | instant utc seconds nanos => cases utc <;> simp [take?, tag, bytes, takeWord_wordBytes]
  | enum signed token bits => cases signed <;> simp [take?, tag, bytes, takeWord_wordBytes]
  | _ => simp [take?, tag, bytes, takeWord_wordBytes, takeByte]

theorem length_bytes_of_payloadSize? {payload : Payload} {size : Nat}
    (h : payload.tag.payloadSize? = some size) : payload.bytes.length = size := by
  cases payload with
  | instant utc seconds nanos =>
    cases utc <;> simp_all [tag, Tag.payloadSize?, bytes, wordBytes]
  | enum signed token bits =>
    cases signed <;> simp_all [tag, Tag.payloadSize?, bytes, wordBytes]
  | identifier id => simp_all [tag, Tag.payloadSize?, bytes, id.length_eq]
  | _ => simp_all [tag, Tag.payloadSize?, bytes, wordBytes]

end Payload
end Logbook.Record
