import Logbook.Record.Entry
set_option autoImplicit false

/-!
# Entries as they are stored

The bytes of a record are the bytes of its entries, one after the other. Reading an entry from the
front gives it back and stops where it ends, whether it is read for its value or stepped over.
-/
namespace Logbook.Record

structure StoredValue where
  format : Option UInt8
  payload : Payload

inductive Stored where
  | value (v : StoredValue)
  | field (key : UInt8) (v : StoredValue)

namespace StoredValue

def bytes (v : StoredValue) : List UInt8 :=
  (Header.mk v.payload.tag v.format).bytes ++ v.payload.bytes

end StoredValue

namespace Stored

def bytes : Stored → List UInt8
  | .value v => v.bytes
  | .field key v => (Header.mk .key none).bytes ++ [key] ++ v.bytes

def payload : Stored → Payload
  | .value v | .field _ v => v.payload

def indices : Stored → List UInt8
  | .value v => v.format.toList ++ textIndex v.payload
  | .field key v => key :: (v.format.toList ++ textIndex v.payload)
where
  textIndex : Payload → List UInt8
    | .text index => [index]
    | _ => []

end Stored

theorem Header.length_bytes_pos (h : Header) : 0 < h.bytes.length := by
  obtain ⟨tag, format⟩ := h
  cases format <;> exact Nat.succ_pos _

theorem Stored.length_bytes_pos (s : Stored) : 0 < s.bytes.length := by
  cases s with
  | value v =>
    have h := Header.length_bytes_pos ⟨v.payload.tag, v.format⟩
    simp only [bytes, StoredValue.bytes, List.length_append]
    omega
  | field key v =>
    simp only [bytes, List.length_append, List.length_singleton]
    omega

theorem Payload.storable_of_length_lt {p : Payload} (h : p.bytes.length < 0x1_0000_0000) :
    p.Storable := by
  cases p with
  | span s | ascii s =>
    simp only [bytes, spanBytes, List.length_append] at h
    exact Nat.lt_of_le_of_lt (Nat.le_add_left _ _) h
  | unmanaged token raw =>
    simp only [bytes, spanBytes, List.length_append] at h
    change raw.length < 0x1_0000_0000
    omega
  | _ => trivial

theorem Stored.length_payload_le (s : Stored) : s.payload.bytes.length ≤ s.bytes.length := by
  cases s with
  | value v => simp [payload, bytes, StoredValue.bytes]
  | field key v =>
    simp only [payload, bytes, StoredValue.bytes, List.length_append]
    omega

theorem Stored.length_le_flatMap_bytes (entries : List Stored) :
    entries.length ≤ (entries.flatMap Stored.bytes).length := by
  induction entries with
  | nil => exact Nat.zero_le _
  | cons s entries ih =>
    have hs := s.length_bytes_pos
    rw [List.flatMap_cons, List.length_append, List.length_cons]
    omega

theorem Payload.tag_ne (p : Payload) : p.tag ≠ .key ∧ p.tag ≠ .cut := by
  cases p with
  | instant utc seconds nanos => cases utc <;> exact ⟨nofun, nofun⟩
  | enum signed token bits => cases signed <;> exact ⟨nofun, nofun⟩
  | _ => exact ⟨nofun, nofun⟩

theorem skipBytes_append (taken rest : List UInt8) :
    skipBytes taken.length (taken ++ rest) = some rest := by
  rw [skipBytes_eq, takeBytes_append, Option.map_some]

theorem skipBytes_of_length {size : Nat} {taken : List UInt8} (h : taken.length = size)
    (rest : List UInt8) : skipBytes size (taken ++ rest) = some rest := by
  rw [← h]
  exact skipBytes_append taken rest

theorem skipSpan_spanBytes {bytes : List UInt8} (h : bytes.length < 0x1_0000_0000)
    (rest : List UInt8) : skipSpan (Payload.spanBytes bytes ++ rest) = some rest := by
  have ht := Payload.takeSpan_spanBytes h rest
  rw [takeSpan] at ht
  rw [skipSpan]
  cases hw : takeWord 4 (Payload.spanBytes bytes ++ rest) with
  | none => simp [hw] at ht
  | some pair =>
    rw [hw] at ht
    simp only at ht ⊢
    rw [skipBytes_eq, ht, Option.map_some]

theorem skipWithin_bytes {v : StoredValue} (h : v.payload.Storable) (fuel : Nat)
    (rest : List UInt8) : skipWithin (fuel + 1) (v.bytes ++ rest) = some rest := by
  obtain ⟨format, p⟩ := v
  rw [StoredValue.bytes, List.append_assoc, skipWithin, Header.take?_bytes]
  simp only
  cases hs : p.tag.payloadSize? with
  | some size => exact skipBytes_of_length (Payload.length_bytes_of_payloadSize? hs) rest
  | none =>
    -- the lengths of the others are in their payloads
    cases p with
    | text index => rfl
    | span s => exact skipSpan_spanBytes h rest
    | ascii s => exact skipSpan_spanBytes h rest
    | unmanaged token raw =>
      have hskip : skipBytes 8 (wordBytes 8 token ++ (Payload.spanBytes raw ++ rest)) =
          some (Payload.spanBytes raw ++ rest) :=
        skipBytes_of_length (length_toBytes 8 token.toNat) _
      simp only [Payload.tag, Payload.bytes, List.append_assoc]
      rw [hskip, Option.bind_some]
      exact skipSpan_spanBytes h rest
    | instant utc seconds nanos => cases utc <;> simp [Payload.tag, Tag.payloadSize?] at hs
    | enum signed token bits => cases signed <;> simp [Payload.tag, Tag.payloadSize?] at hs
    | _ => simp [Payload.tag, Tag.payloadSize?] at hs

theorem skip?_bytes {v : StoredValue} (h : v.payload.Storable) (rest : List UInt8) :
    skip? (v.bytes ++ rest) = some rest := by
  have hpos := Stored.length_bytes_pos (.value v)
  simp only [Stored.bytes] at hpos
  rw [skip?]
  obtain ⟨fuel, hfuel⟩ : ∃ fuel, (v.bytes ++ rest).length = fuel + 1 :=
    ⟨(v.bytes ++ rest).length - 1, by rw [List.length_append]; omega⟩
  rw [hfuel]
  exact skipWithin_bytes h fuel rest

namespace Entry

theorem take?_value {v : StoredValue} (h : v.payload.Storable) (rest : List UInt8) :
    take? ((Stored.value v).bytes ++ rest) = some (.value v.format v.payload, rest) := by
  obtain ⟨format, p⟩ := v
  have hp := Payload.take?_bytes p h rest
  obtain ⟨hkey, hcut⟩ := p.tag_ne
  rw [Stored.bytes, StoredValue.bytes, List.append_assoc, take?, Header.take?_bytes]
  simp only
  rw [hp, Option.map_some]

theorem take?_field {key : UInt8} {v : StoredValue} (h : v.payload.Storable)
    (rest : List UInt8) :
    take? ((Stored.field key v).bytes ++ rest) = some (.field, rest) := by
  rw [Stored.bytes, List.append_assoc, List.append_assoc, take?, Header.take?_bytes]
  simp only [List.singleton_append, skipBytes, Option.bind_some]
  rw [skip?_bytes h, Option.map_some]

end Entry
end Logbook.Record
