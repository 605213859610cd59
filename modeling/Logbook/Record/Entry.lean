import Logbook.Record.Payload
set_option autoImplicit false

/-!
# Entries of a record

An entry is a tag byte, the index of a format string if the tag byte announces one, and a payload.
A key is followed by a complete entry for its value; one that is read for the text of a record is
only skipped. `skip?` steps over an entry without looking at what it means; `take?` reads it.
-/
namespace Logbook.Record

structure Header where
  tag : Tag
  format : Option UInt8
  deriving DecidableEq

namespace Header

def bytes (h : Header) : List UInt8 :=
  match h.format with
  | some index => [h.tag.code ||| Tag.formatFlag, index]
  | none => [h.tag.code]

def take? : List UInt8 → Option (Header × List UInt8)
  | [] => none
  | raw :: rest =>
    match Tag.ofCode? (raw &&& ~~~Tag.formatFlag) with
    | none => none
    | some tag =>
      if raw &&& Tag.formatFlag = 0 then some (⟨tag, none⟩, rest)
      else
        match rest with
        | [] => none
        | index :: rest => some (⟨tag, some index⟩, rest)

theorem take?_bytes (h : Header) (rest : List UInt8) :
    take? (h.bytes ++ rest) = some (h, rest) := by
  obtain ⟨tag, format⟩ := h
  cases format with
  | none =>
    have h1 : tag.code &&& ~~~Tag.formatFlag = tag.code := by
      cases tag with
      | integer kind => cases kind <;> rfl
      | _ => rfl
    simp [bytes, take?, h1, Tag.ofCode?_code, Tag.code_and_formatFlag]
  | some index =>
    have h1 : (tag.code ||| Tag.formatFlag) &&& ~~~Tag.formatFlag = tag.code := by
      cases tag with
      | integer kind => cases kind <;> rfl
      | _ => rfl
    have h2 : (tag.code ||| Tag.formatFlag) &&& Tag.formatFlag ≠ 0 := by
      cases tag with
      | integer kind => cases kind <;> decide
      | _ => decide
    simp [bytes, take?, h1, h2, Tag.ofCode?_code]

end Header

/-- Steps over one entry; `fuel` bounds how many keys may follow each other. -/
def skipWithin : Nat → List UInt8 → Option (List UInt8)
  | 0, _ => none
  | fuel + 1, data =>
    match Header.take? data with
    | none => none
    | some (header, rest) =>
      match header.tag.payloadSize? with
      | some size => skipBytes size rest
      | none =>
        match header.tag with
        | .text => skipBytes 1 rest
        | .span | .ascii => skipSpan rest
        | .unmanaged => (skipBytes 8 rest).bind skipSpan
        | .key => (skipBytes 1 rest).bind (skipWithin fuel)
        | _ => some rest

def skip? (data : List UInt8) : Option (List UInt8) := skipWithin data.length data

inductive Entry where
  | value (format : Option UInt8) (payload : Payload)
  | field
  | cut

namespace Entry

def take? (data : List UInt8) : Option (Entry × List UInt8) :=
  match Header.take? data with
  | none => none
  | some (header, rest) =>
    match header.tag with
    | .cut => some (.cut, rest)
    | .key => ((skipBytes 1 rest).bind skip?).map (.field, ·)
    | tag => (Payload.take? tag rest).map fun (payload, rest) =>
        (.value header.format payload, rest)

end Entry
end Logbook.Record
