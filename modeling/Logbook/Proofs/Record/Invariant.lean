import Logbook.Proofs.Record.Operation
set_option autoImplicit false

/-!
# What a record holds at any time

At any time the bytes of a record are the bytes of its entries and perhaps an end marker. `Holds`
says so of given entries; each operation leads from some entries to others, and the new ones among
them are those that the operation writes.
-/
namespace Logbook

open Calendar Record Text

namespace Record

namespace Addition

theorem indices_stored (a : Addition) (index : UInt8) :
    (a.stored index).indices = (List.range a.slots).map fun k => index + UInt8.ofNat k := by
  cases a with
  | value v format =>
    cases format <;> cases v <;>
      simp [stored, Stored.indices, Stored.indices.textIndex, slots, strings, format?,
        Value.takesFormat, Value.tableText?, Value.payload]
  | field key v =>
    cases v <;>
      simp [stored, Stored.indices, Stored.indices.textIndex, slots, strings, Value.tableText?,
        Value.payload, List.range_succ]

theorem toNat_index {n k : Nat} (h : n + k < 256) :
    (UInt8.ofNat n + UInt8.ofNat k).toNat = n + k := by
  rw [← UInt8.ofNat_add]
  exact UInt8.toNat_ofNat_of_lt' h

theorem toNat_lt_of_mem_indices {a : Addition} {n : Nat} (h : n + a.slots ≤ maxStringCapacity)
    {i : UInt8} (hi : i ∈ (a.stored (UInt8.ofNat n)).indices) : i.toNat < n + a.slots := by
  rw [indices_stored, List.mem_map] at hi
  obtain ⟨k, hk, rfl⟩ := hi
  have hk' := List.mem_range.1 hk
  rw [maxStringCapacity] at h
  rw [toNat_index (by omega)]
  omega

def Writes (a : Addition) (s : Stored) : Prop :=
  (∃ index, s = a.stored index) ∨ ∃ room, a.part? room = some s

theorem indices_of_part? {a : Addition} {room : Nat} {s : Stored} (h : a.part? room = some s) :
    s.indices = [] := by
  cases a with
  | value v format =>
    cases v with
    | span text | ascii bytes =>
      rw [part?] at h
      split at h
      · cases h
      · cases h
        rfl
    | _ => cases h
  | field key v => cases h

theorem length_bytes_span {p : Payload} {bytes : List UInt8}
    (hp : p.bytes = Payload.spanBytes bytes) :
    (Stored.value ⟨none, p⟩).bytes.length = spanHeader + bytes.length := by
  simp only [Stored.bytes, StoredValue.bytes, hp, Header.bytes, Payload.spanBytes, spanHeader,
    List.length_append, List.length_singleton, length_toBytes, Nat.add_assoc]

theorem length_part?_le {a : Addition} {room : Nat} {s : Stored} (h : a.part? room = some s) :
    s.bytes.length ≤ room := by
  cases a with
  | value v format =>
    cases v with
    | span text =>
      rw [part?] at h
      split at h
      · cases h
      · rename_i hne
        obtain rfl := Option.some.inj h
        have hpos : 0 < (utf8.encodeChars (utf8.fit (room - spanHeader) text.toList)).length :=
          Nat.pos_of_ne_zero fun hz => hne ((fittingBytes_eq_zero_iff _ _).1
            ((fittingBytes_eq _ _).trans hz))
        have hle := (utf8.fit_isLongest (room - spanHeader) text.toList).size_le
        have hlen : (Stored.value ⟨none, .span
            (utf8.encodeChars (utf8.fit (room - spanHeader) text.toList))⟩).bytes.length =
            spanHeader + (utf8.encodeChars (utf8.fit (room - spanHeader) text.toList)).length :=
          length_bytes_span rfl
        omega
    | ascii bytes =>
      rw [part?] at h
      split at h
      · cases h
      · rename_i hne
        obtain rfl := Option.some.inj h
        have hpos := List.length_pos_iff.2 hne
        have hle := List.length_take_le (room - spanHeader) bytes
        rw [length_bytes_span rfl]
        omega
    | _ => cases h
  | field key v => cases h

end Addition

def written (r : Record) : Operation → List Stored
  | .add a =>
    if r.truncated then []
    else if r.hasRoom a.size a.slots then [a.stored r.nextIndex]
    else (a.part? r.remaining).toList
  | .truncate | .reset .. | .attach _ => []

section Written

variable {r : Record} {a : Addition}

theorem written_of_truncated (h : r.truncated = true) : r.written (.add a) = [] := by
  rw [written, if_pos h]

theorem written_of_fits (ht : r.truncated = false) (h : r.Fits a) :
    r.written (.add a) = [a.stored r.nextIndex] := by
  rw [written, ht, if_pos ((r.hasRoom_iff_fits a).2 h)]
  rfl

theorem written_of_not_fits (ht : r.truncated = false) (h : ¬ r.Fits a) :
    r.written (.add a) = (a.part? r.remaining).toList := by
  rw [written, ht, if_neg fun hroom => h ((r.hasRoom_iff_fits a).1 hroom)]
  rfl

theorem writes_of_mem_written {op : Operation} {s : Stored} (h : s ∈ r.written op) :
    ∃ a, op = .add a ∧ a.Writes s := by
  cases op with
  | add a =>
    refine ⟨a, rfl, ?_⟩
    rw [written] at h
    split at h
    · cases h
    · split at h
      · exact .inl ⟨_, List.mem_singleton.1 h⟩
      · exact .inr ⟨_, Option.mem_toList.1 h⟩
  | truncate => cases h
  | reset loggerName level now thread => cases h
  | attach exception => cases h

end Written

/-- The bytes in use are those of the entries, and of an end marker if `marked`. Strings that the
entries name are in the table. -/
structure Holds (r : Record) (entries : List Stored) (marked : Bool) : Prop where
  encoded_eq : r.encoded =
    entries.flatMap Stored.bytes ++ if marked then [Tag.cut.code] else []
  index_lt : ∀ s ∈ entries, ∀ i ∈ s.indices, i.toNat < r.strings.size
  truncated_of_marked : marked = true → r.truncated = true
  marked_or_full : r.truncated = true → marked = true ∨ r.position = r.segment.size
  position_le : r.position ≤ r.segment.size
  strings_le : r.strings.size ≤ r.stringCapacity
  capacity_le : r.stringCapacity ≤ maxStringCapacity

namespace Holds

variable {r : Record} {entries : List Stored} {marked : Bool}

theorem create (segment : Segment) (capacity serial : Nat) :
    (Record.create segment capacity serial).Holds [] false where
  encoded_eq := by
    rw [← List.length_eq_zero_iff.1 (length_encoded (Record.create segment capacity serial))]
    rfl
  index_lt := List.forall_mem_nil _
  truncated_of_marked := nofun
  marked_or_full := nofun
  position_le := Nat.zero_le _
  strings_le := Nat.zero_le _
  capacity_le := Nat.min_le_right _ _

theorem marked_eq_false (h : r.Holds entries marked) (ht : r.truncated = false) :
    marked = false := by
  cases marked with
  | false => rfl
  | true => rw [h.truncated_of_marked rfl] at ht; cases ht

theorem store (h : r.Holds entries marked) (ht : r.truncated = false) {a : Addition}
    (hf : r.Fits a) :
    ((r.put (a.stored r.nextIndex).bytes).intern a.strings).Holds
      (entries ++ [a.stored r.nextIndex]) false := by
  obtain rfl := h.marked_eq_false ht
  have hsize := size_strings_intern (r.put (a.stored r.nextIndex).bytes) a.strings
  have hslots := Nat.le_trans hf.2 h.capacity_le
  constructor
  case encoded_eq =>
    rw [encoded_intern, encoded_put, h.encoded_eq]
    simp
  case index_lt =>
    intro s hs i hi
    rw [hsize, strings_put]
    rcases List.mem_append.1 hs with hs | hs
    · exact Nat.lt_of_lt_of_le (h.index_lt s hs i hi) (Nat.le_add_right _ _)
    · rw [List.mem_singleton.1 hs] at hi
      exact a.toNat_lt_of_mem_indices hslots hi
  case truncated_of_marked =>
    intro hmarked
    cases hmarked
  case marked_or_full =>
    intro htrue
    rw [truncated_intern, truncated_put, ht] at htrue
    cases htrue
  case position_le =>
    have hle := hf.1
    have hpos := h.position_le
    rw [remaining] at hle
    rw [position_intern, position_put, segment_intern, segmentSize_put, a.length_bytes_stored]
    omega
  case strings_le =>
    rw [hsize]
    exact hf.2
  case capacity_le => exact h.capacity_le

theorem putPart (h : r.Holds entries marked) (ht : r.truncated = false) {a : Addition} :
    (r.putPart (a.part? r.remaining)).Holds (entries ++ (a.part? r.remaining).toList) false := by
  obtain rfl := h.marked_eq_false ht
  cases hp : a.part? r.remaining with
  | none =>
    rw [Option.toList_none, List.append_nil]
    exact h
  | some part =>
    have hle := Addition.length_part?_le hp
    constructor
    case encoded_eq =>
      rw [Record.putPart, encoded_put, h.encoded_eq]
      simp
    case index_lt =>
      intro s hs i hi
      rcases List.mem_append.1 hs with hs | hs
      · exact h.index_lt s hs i hi
      · rw [Option.toList_some, List.mem_singleton] at hs
        rw [hs, Addition.indices_of_part? hp] at hi
        cases hi
    case truncated_of_marked =>
      intro hmarked
      cases hmarked
    case marked_or_full =>
      intro htrue
      rw [truncated_putPart, ht] at htrue
      cases htrue
    case position_le =>
      have hpos := h.position_le
      rw [remaining] at hle
      rw [Record.putPart, position_put, segmentSize_put]
      omega
    case strings_le => exact h.strings_le
    case capacity_le => exact h.capacity_le

theorem truncate (h : r.Holds entries marked) :
    ∃ marked', r.truncate.Holds entries marked' := by
  cases ht : r.truncated with
  | true =>
    rw [truncate_of_truncated ht]
    exact ⟨marked, h⟩
  | false =>
    obtain rfl := h.marked_eq_false ht
    have henc := encoded_truncate ht
    have hlen := congrArg List.length henc
    rw [List.length_append, length_encoded, length_encoded, marker, remaining] at hlen
    have hpos := h.position_le
    have hsize := segmentSize_truncate r
    -- a record without a byte for the marker is full, which `marked_or_full` allows for
    refine ⟨decide (0 < r.remaining), ?_, ?_, ?_, ?_, ?_, ?_, ?_⟩
    · rw [henc, h.encoded_eq, marker]
      simp
    · rw [strings_truncate]
      exact h.index_lt
    · exact fun _ => truncated_truncate r
    · intro _
      by_cases hroom : 0 < r.remaining
      · exact .inl (decide_eq_true hroom)
      · rw [remaining] at hroom
        rw [if_neg hroom, List.length_nil] at hlen
        exact .inr (by omega)
    · split at hlen
      · rw [List.length_singleton] at hlen
        omega
      · rw [List.length_nil] at hlen
        omega
    · rw [strings_truncate, stringCapacity_truncate]
      exact h.strings_le
    · rw [stringCapacity_truncate]
      exact h.capacity_le

theorem reset (h : r.Holds entries marked) (loggerName : Option Label) (level : Level)
    (now : Instant) (thread : String) : (r.reset loggerName level now thread).Holds [] false where
  encoded_eq := by
    rw [← List.length_eq_zero_iff.1 (length_encoded (r.reset loggerName level now thread))]
    rfl
  index_lt := List.forall_mem_nil _
  truncated_of_marked := nofun
  marked_or_full := nofun
  position_le := Nat.zero_le _
  strings_le := Nat.zero_le _
  capacity_le := h.capacity_le

/-- Each operation keeps the invariant, with the entries that it adds. -/
theorem perform_written (h : r.Holds entries marked) (op : Operation) :
    ∃ marked', (r.perform op).Holds ((if op.isReset then [] else entries) ++ r.written op)
      marked' := by
  cases op with
  | add a =>
    rcases r.extend_cases h.strings_le a with ⟨ht, heq⟩ | ⟨ht, hf, heq⟩ | ⟨ht, hf, heq⟩
    · rw [Record.perform, heq, written_of_truncated ht, List.append_nil]
      exact ⟨marked, h⟩
    · rw [Record.perform, heq, written_of_fits ht hf]
      exact ⟨false, h.store ht hf⟩
    · rw [Record.perform, heq, written_of_not_fits ht hf]
      exact (h.putPart ht).truncate
  | truncate =>
    obtain ⟨marked', hcut⟩ := h.truncate
    exact ⟨marked', by rw [written, List.append_nil]; exact hcut⟩
  | reset loggerName level now thread => exact ⟨false, h.reset loggerName level now thread⟩
  | attach exception => exact ⟨marked, by rw [written, List.append_nil]; exact { h with }⟩

theorem perform (h : r.Holds entries marked) (op : Operation) :
    ∃ entries' marked', (r.perform op).Holds entries' marked' ∧
      ∀ s ∈ entries', s ∈ entries ∨ ∃ a, op = .add a ∧ a.Writes s := by
  obtain ⟨marked', h'⟩ := h.perform_written op
  refine ⟨_, marked', h', fun s hs => ?_⟩
  rcases List.mem_append.1 hs with hold | hnew
  · by_cases hreset : op.isReset = true
    · rw [if_pos hreset] at hold
      cases hold
    · rw [if_neg hreset] at hold
      exact .inl hold
  · exact .inr (writes_of_mem_written hnew)

/-- After any operations there are entries, and what is true of all that the operations may write
is true of them. -/
theorem run (P : Stored → Prop) {ops : List Operation}
    (hops : ∀ a, .add a ∈ ops → ∀ s, a.Writes s → P s) (h : r.Holds entries marked)
    (hentries : ∀ s ∈ entries, P s) :
    ∃ entries' marked', (r.run ops).Holds entries' marked' ∧ ∀ s ∈ entries', P s := by
  induction ops generalizing r entries marked with
  | nil => exact ⟨entries, marked, h, hentries⟩
  | cons op ops ih =>
    obtain ⟨entries', marked', h', hnew⟩ := h.perform op
    refine ih (fun a ha => hops a (List.mem_cons_of_mem _ ha)) h' fun s hs => ?_
    rcases hnew s hs with hold | ⟨a, rfl, hw⟩
    · exact hentries s hold
    · exact hops a List.mem_cons_self s hw

theorem run_room (h : r.Holds entries marked) (ops : List Operation) :
    (r.run ops).segment.size = r.segment.size ∧
      (r.run ops).stringCapacity = r.stringCapacity := by
  induction ops generalizing r entries marked with
  | nil => exact ⟨rfl, rfl⟩
  | cons op ops ih =>
    obtain ⟨hsize, hcapacity⟩ := perform_room h.strings_le op
    obtain ⟨entries', marked', h', _⟩ := h.perform op
    obtain ⟨hsize', hcapacity'⟩ := ih h'
    exact ⟨hsize'.trans hsize, hcapacity'.trans hcapacity⟩

theorem length_payload_le (h : r.Holds entries marked) {s : Stored} (hs : s ∈ entries) :
    s.payload.bytes.length ≤ r.segment.size := by
  have hlen : s.bytes.length ≤ r.encoded.length := by
    obtain ⟨before, after, rfl⟩ := List.append_of_mem hs
    rw [h.encoded_eq, List.flatMap_append, List.flatMap_cons]
    simp only [List.length_append]
    omega
  rw [length_encoded] at hlen
  have hpos := h.position_le
  have hle := s.length_payload_le
  omega

theorem storable_of_size_lt (h : r.Holds entries marked) (hsize : r.segment.size < 0x1_0000_0000)
    {s : Stored} (hs : s ∈ entries) : s.payload.Storable := by
  have hle := h.length_payload_le hs
  exact Payload.storable_of_length_lt (by omega)

theorem storable (h : r.Holds entries marked) (hsize : r.segment.size ≤ maxRegionSize)
    {s : Stored} (hs : s ∈ entries) : s.payload.Storable := by
  rw [maxRegionSize] at hsize
  exact h.storable_of_size_lt (by omega) hs

end Holds
end Record
end Logbook
