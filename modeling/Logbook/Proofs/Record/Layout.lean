import Logbook.Proofs.Record.Checked
set_option autoImplicit false

/-!
# The format of the bytes

The format is described here by the bytes alone, as a reader of the format meets it, and not by the
values that were appended. Whatever is done to a record, its bytes are entries of this format.
-/
namespace Logbook

open Calendar Record

namespace Record

inductive PayloadLayout (count : Nat) : Tag → List UInt8 → Prop
  | fixed {tag : Tag} {payload : List UInt8} (hcut : tag ≠ .cut)
      (hsize : tag.payloadSize? = some payload.length) : PayloadLayout count tag payload
  | text {index : UInt8} (hindex : index.toNat < count) : PayloadLayout count .text [index]
  | span {length bytes : List UInt8} (hlength : length.length = 4)
      (hbytes : ofBytes length = bytes.length) : PayloadLayout count .span (length ++ bytes)
  | ascii {length bytes : List UInt8} (hlength : length.length = 4)
      (hbytes : ofBytes length = bytes.length) : PayloadLayout count .ascii (length ++ bytes)
  | unmanaged {token length bytes : List UInt8} (htoken : token.length = 8)
      (hlength : length.length = 4) (hbytes : ofBytes length = bytes.length) :
      PayloadLayout count .unmanaged (token ++ (length ++ bytes))

inductive ValueLayout (count : Nat) : List UInt8 → Prop
  | plain {tag : Tag} {payload : List UInt8} (hpayload : PayloadLayout count tag payload) :
      ValueLayout count (tag.code :: payload)
  | formatted {tag : Tag} {format : UInt8} {payload : List UInt8}
      (hformat : format.toNat < count) (hpayload : PayloadLayout count tag payload) :
      ValueLayout count ((tag.code ||| Tag.formatFlag) :: format :: payload)

inductive EntryLayout (count : Nat) : List UInt8 → Prop
  | value {bytes : List UInt8} (hvalue : ValueLayout count bytes) : EntryLayout count bytes
  | field {key : UInt8} {bytes : List UInt8} (hkey : key.toNat < count)
      (hvalue : ValueLayout count bytes) : EntryLayout count (Tag.key.code :: key :: bytes)

structure WellFormed (r : Record) : Prop where
  position_le : r.position ≤ r.segment.size
  strings_le : r.strings.size ≤ r.stringCapacity
  capacity_le : r.stringCapacity ≤ maxStringCapacity
  layout : ∃ (entries : List (List UInt8)) (marked : Bool),
    (∀ bytes ∈ entries, EntryLayout r.strings.size bytes) ∧
    r.encoded = entries.flatten ++ (if marked then [Tag.cut.code] else []) ∧
    (marked = true → r.truncated = true) ∧
    (r.truncated = true → marked = true ∨ r.position = r.segment.size)

theorem ofBytes_length {bytes : List UInt8} (h : bytes.length < 0x1_0000_0000) :
    ofBytes (toBytes 4 bytes.length) = bytes.length := by
  rw [ofBytes_toBytes]
  exact Nat.mod_eq_of_lt h

theorem payloadLayout_bytes {count : Nat} {p : Payload} (h : p.Storable)
    (hindex : ∀ i ∈ Stored.indices.textIndex p, i.toNat < count) :
    PayloadLayout count p.tag p.bytes := by
  cases hs : p.tag.payloadSize? with
  | some size =>
    refine .fixed p.tag_ne.2 ?_
    rw [Payload.length_bytes_of_payloadSize? hs]
    exact hs
  | none =>
    cases p with
    | text index => exact .text (hindex index List.mem_cons_self)
    | span bytes => exact .span (length_toBytes 4 _) (ofBytes_length h)
    | ascii bytes => exact .ascii (length_toBytes 4 _) (ofBytes_length h)
    | unmanaged token bytes =>
      exact .unmanaged (length_toBytes 8 _) (length_toBytes 4 _) (ofBytes_length h)
    | instant utc seconds nanos => cases utc <;> cases hs
    | enum signed token bits => cases signed <;> cases hs
    | _ => cases hs

theorem valueLayout_bytes {count : Nat} {v : StoredValue} (h : v.payload.Storable)
    (hindex : ∀ i ∈ v.format.toList ++ Stored.indices.textIndex v.payload, i.toNat < count) :
    ValueLayout count v.bytes := by
  obtain ⟨format, p⟩ := v
  have hp : PayloadLayout count p.tag p.bytes :=
    payloadLayout_bytes h fun i hi => hindex i (List.mem_append_right _ hi)
  cases format with
  | none => exact .plain hp
  | some index => exact .formatted (hindex index (List.mem_cons_self)) hp

theorem entryLayout_bytes {count : Nat} {s : Stored} (h : s.payload.Storable)
    (hindex : ∀ i ∈ s.indices, i.toNat < count) : EntryLayout count s.bytes := by
  cases s with
  | value v => exact .value (valueLayout_bytes h hindex)
  | field key v =>
    exact .field (hindex key List.mem_cons_self)
      (valueLayout_bytes h fun i hi => hindex i (List.mem_cons_of_mem _ hi))

theorem Holds.wellFormed {r : Record} {entries : List Stored} {marked : Bool}
    (h : r.Holds entries marked) (hsize : r.segment.size ≤ maxRegionSize) : r.WellFormed where
  position_le := h.position_le
  strings_le := h.strings_le
  capacity_le := h.capacity_le
  layout := by
    refine ⟨entries.map Stored.bytes, marked, ?_, ?_, h.truncated_of_marked, h.marked_or_full⟩
    · intro bytes hb
      obtain ⟨s, hs, rfl⟩ := List.mem_map.1 hb
      exact entryLayout_bytes (h.storable hsize hs) (h.index_lt s hs)
    · rw [h.encoded_eq, List.flatMap_def]

/-- Whatever is done to a record, in whatever order: every access stays inside the bytes reserved
for it, the record is well-formed afterwards, and if it is cut only a reset changes what it
holds. -/
theorem run_wellFormed (segment : Segment) (capacity serial : Nat)
    (hsize : segment.size ≤ maxRegionSize) (ops : List Operation) :
    let r := (create segment capacity serial).run ops
    (create segment capacity serial).run? ops = some r ∧ r.WellFormed ∧
      r.segment.size = segment.size ∧ r.stringCapacity = min capacity maxStringCapacity ∧
      (r.truncated = true → ∀ more : List Operation, (∀ op ∈ more, op.isReset = false) →
        (r.run more).segment = r.segment ∧ (r.run more).strings = r.strings ∧
          (r.run more).position = r.position ∧ (r.run more).truncated = true) := by
  intro r
  have hstart := Holds.create segment capacity serial
  obtain ⟨hsegment, hcapacity⟩ := hstart.run_room ops
  obtain ⟨entries, marked, h, _⟩ := hstart.run (fun _ => True) (fun _ _ _ _ => trivial)
    (fun _ _ => trivial)
  have hr : r.segment.size ≤ maxRegionSize := Nat.le_trans (Nat.le_of_eq hsegment) hsize
  exact ⟨run?_eq hstart ops, h.wellFormed hr, hsegment, hcapacity,
    fun ht more hmore => run_of_truncated ht hmore⟩

/-- A number fills a segment of six bytes up to one, a second is cut, and a flag after that leaves
the record as it is. -/
theorem run_wellFormed_two_numbers :
    let ops : List Operation := [.reset none .info .epoch "main",
      .add (.value (.integer .int32 1) none), .add (.value (.integer .int32 2) (some "D4")),
      .add (.field "k" (.bool true)), .attach "gone", .truncate]
    let r := (create (Segment.zeroed 6) 4 0).run ops
    r.encoded = [11, 1, 0, 0, 0, 32] ∧ r.WellFormed :=
  ⟨by decide, (run_wellFormed (Segment.zeroed 6) 4 0 (by decide) _).2.1⟩

end Record
end Logbook
