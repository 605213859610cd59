import Logbook.Proofs.Record.Invariant
set_option autoImplicit false

/-!
# Operations that check every access

The operations once more, with each access to the segment written out. An entry reserves the bytes
that its kind declares and fills them one by one; what lies outside of the segment or of the
reserved part, or leaves a reserved byte, has no result. Every run has one, which is that of the
operations without checks.
-/
namespace Logbook

open Record Text

namespace Record

def remaining? (r : Record) : Option Nat :=
  if r.position ≤ r.segment.size then some (r.segment.size - r.position) else none

def putReserved? (r : Record) (length : Nat) (bytes : List UInt8) : Option Record :=
  if r.position + length ≤ r.segment.size then
    match r.segment.writeReserved? r.position length 0 bytes with
    | some segment =>
      if bytes.length = length then some { r with segment, position := r.position + length }
      else none
    | none => none
  else none

def truncate? (r : Record) : Option Record :=
  if r.truncated then some r
  else if r.position < r.segment.size then
    (r.putReserved? 1 [Tag.cut.code]).map fun r => { r with truncated := true }
  else some { r with truncated := true }

def store? (r : Record) (length slots : Nat) (bytes : List UInt8) (strings : List String) :
    Option Record :=
  r.remaining?.bind fun room =>
    if length ≤ room ∧ r.strings.size + slots ≤ r.stringCapacity then
      (r.putReserved? length bytes).map fun r => r.intern strings
    else r.truncate?

def appendValue? (r : Record) (v : Value) (format : Option String) : Option Record :=
  if r.truncated then some r
  else
    let format := if v.takesFormat then format else none
    let extra := if format.isSome then 1 else 0
    r.store? (v.size + extra) (v.slots + extra) (entryBytes v format r.nextIndex)
      (format.toList ++ v.tableText?.toList)

def appendField? (r : Record) (key : String) (v : Value) : Option Record :=
  if r.truncated then some r
  else
    r.store? (2 + v.size) (1 + v.slots)
      ((Header.mk .key none).bytes ++ [r.nextIndex] ++ entryBytes v none (r.nextIndex + 1))
      (key :: v.tableText?.toList)

def putSpan? (r : Record) (wrap : List UInt8 → Payload) (bytes : List UInt8) (kept : Nat) :
    Option Record :=
  if kept ≤ bytes.length then
    let payload := wrap (bytes.take kept)
    r.putReserved? (spanHeader + kept) ((Header.mk payload.tag none).bytes ++ payload.bytes)
  else none

def appendSpan? (r : Record) (wrap : List UInt8 → Payload) (bytes : List UInt8)
    (fit : Nat → Nat) : Option Record :=
  if r.truncated then some r
  else
    r.remaining?.bind fun room =>
      let kept :=
        if spanHeader + bytes.length ≤ room then bytes.length
        else if spanHeader < room then fit (room - spanHeader)
        else 0
      let headerFits := spanHeader + kept ≤ room
      let stored :=
        if headerFits ∧ (0 < kept ∨ bytes.length = 0) then r.putSpan? wrap bytes kept else some r
      if ¬headerFits ∨ kept < bytes.length then stored.bind truncate? else stored

def append? (r : Record) (v : Value) (format : Option String) : Option Record :=
  match v with
  | .span s => r.appendSpan? .span (Utf8.bytes s) fun room => fittingBytes room s.toList
  | .ascii bytes => r.appendSpan? .ascii bytes fun room => room
  | v => r.appendValue? v format

def perform? (r : Record) : Operation → Option Record
  | .add (.value v format) => r.append? v format
  | .add (.field key v) => r.appendField? key v
  | .truncate => r.truncate?
  | .reset loggerName level now thread => some (r.reset loggerName level now thread)
  | .attach exception => some (r.attach exception)

def run? (r : Record) : List Operation → Option Record
  | [] => some r
  | op :: ops => (r.perform? op).bind fun r => r.run? ops

section Checks

variable {r : Record}

theorem remaining?_eq (h : r.position ≤ r.segment.size) : r.remaining? = some r.remaining :=
  if_pos h

theorem putReserved?_eq {length : Nat} {bytes : List UInt8} (hb : bytes.length = length)
    (hpos : 0 < length) (h : r.position + length ≤ r.segment.size) :
    r.putReserved? length bytes = some (r.put bytes) := by
  have hne : bytes ≠ [] := List.ne_nil_of_length_pos (by omega)
  have hw : r.segment.writeReserved? r.position length 0 bytes =
      some (r.segment.write (r.position + 0) bytes) :=
    Segment.writeReserved?_eq hne (by omega) h
  rw [putReserved?, if_pos h, hw]
  simp only [hb, ↓reduceIte, Nat.add_zero, put]

theorem truncate?_eq (r : Record) : r.truncate? = some r.truncate := by
  rw [truncate?, truncate]
  by_cases ht : r.truncated = true
  · rw [if_pos ht, if_pos ht]
  · rw [if_neg ht, if_neg ht]
    by_cases hp : r.position < r.segment.size
    · rw [if_pos hp, if_pos hp, putReserved?_eq List.length_singleton Nat.one_pos hp,
        Option.map_some]
    · rw [if_neg hp, if_neg hp]

theorem store?_eq (h : r.position ≤ r.segment.size) {length slots : Nat} {bytes : List UInt8}
    (hb : bytes.length = length) (hpos : 0 < length) (strings : List String) :
    r.store? length slots bytes strings =
      some (if r.hasRoom length slots then (r.put bytes).intern strings else r.truncate) := by
  have hroom : r.hasRoom length slots = true ↔
      length ≤ r.remaining ∧ r.strings.size + slots ≤ r.stringCapacity := by
    simp [hasRoom]
  rw [store?, remaining?_eq h, Option.bind_some]
  by_cases hf : length ≤ r.remaining ∧ r.strings.size + slots ≤ r.stringCapacity
  · have hle := hf.1
    rw [remaining] at hle
    rw [if_pos hf, if_pos (hroom.2 hf), putReserved?_eq hb hpos (by omega), Option.map_some]
  · rw [if_neg hf, if_neg fun hr => hf (hroom.1 hr), truncate?_eq]

theorem appendValue?_eq (h : r.position ≤ r.segment.size) (v : Value) (format : Option String) :
    r.appendValue? v format = some (r.appendEntry v format) := by
  rw [appendValue?, appendEntry]
  split
  · rfl
  · have hlen : (entryBytes v (if v.takesFormat then format else none) r.nextIndex).length =
        v.size + if (if v.takesFormat then format else none).isSome then 1 else 0 := by
      refine ((Addition.value v format).length_bytes_stored r.nextIndex).trans ?_
      rw [Addition.size, Addition.format?]
      cases (if v.takesFormat then format else none) <;> rfl
    have hpos : 0 < v.size := by
      have hv := v.length_bytes_payload 0
      omega
    exact store?_eq h hlen (Nat.add_pos_left hpos _) _

theorem appendField?_eq (h : r.position ≤ r.segment.size) (key : String) (v : Value) :
    r.appendField? key v = some (r.appendField key v) := by
  rw [appendField?, appendField]
  split
  · rfl
  · have hlen : ((Header.mk .key none).bytes ++ [r.nextIndex] ++
        entryBytes v none (r.nextIndex + 1)).length = 2 + v.size := by
      rw [List.append_assoc]
      exact (Addition.field key v).length_bytes_stored r.nextIndex
    exact store?_eq h hlen (Nat.add_pos_left (by decide) _) _

theorem putSpan?_eq {wrap : List UInt8 → Payload} {bytes : List UInt8} {kept : Nat}
    (hwrap : ∀ b, (wrap b).bytes = Payload.spanBytes b) (hk : kept ≤ bytes.length)
    (h : r.position + (spanHeader + kept) ≤ r.segment.size) :
    r.putSpan? wrap bytes kept =
      some (r.put ((Header.mk (wrap (bytes.take kept)).tag none).bytes ++
        (wrap (bytes.take kept)).bytes)) := by
  have hlen := Addition.length_bytes_span (hwrap (bytes.take kept))
  rw [List.length_take, Nat.min_eq_left hk] at hlen
  rw [putSpan?, if_pos hk]
  exact putReserved?_eq hlen (Nat.add_pos_left (by decide) _) h

theorem appendSpan?_eq (h : r.position ≤ r.segment.size) {wrap : List UInt8 → Payload}
    (hwrap : ∀ b, (wrap b).bytes = Payload.spanBytes b) (bytes : List UInt8) {fit : Nat → Nat}
    (hfit : ∀ room, fit room ≤ room) :
    r.appendSpan? wrap bytes fit = some (r.appendSpan wrap bytes fit) := by
  rw [appendSpan?, appendSpan]
  split
  · rfl
  · rw [remaining?_eq h, Option.bind_some]
    have hle := hfit (r.remaining - spanHeader)
    have hkept : (if spanHeader + bytes.length ≤ r.remaining then bytes.length
        else if spanHeader < r.remaining then fit (r.remaining - spanHeader) else 0) ≤
        bytes.length := by
      split
      · exact Nat.le_refl _
      · split <;> omega
    -- from here on only that the part is no longer than the span matters
    generalize (if spanHeader + bytes.length ≤ r.remaining then bytes.length
        else if spanHeader < r.remaining then fit (r.remaining - spanHeader) else 0) = kept
      at hkept ⊢
    simp only
    have hstored : (if spanHeader + kept ≤ r.remaining ∧ (0 < kept ∨ bytes.length = 0) then
        r.putSpan? wrap bytes kept else some r) =
        some (if spanHeader + kept ≤ r.remaining ∧ (0 < kept ∨ bytes.length = 0) then
          r.put ((Header.mk (wrap (bytes.take kept)).tag none).bytes ++
            (wrap (bytes.take kept)).bytes) else r) := by
      by_cases hf : spanHeader + kept ≤ r.remaining ∧ (0 < kept ∨ bytes.length = 0)
      · have hroom := hf.1
        rw [remaining] at hroom
        rw [if_pos hf, if_pos hf, putSpan?_eq hwrap hkept (by omega)]
      · rw [if_neg hf, if_neg hf]
    rw [hstored, Option.bind_some, truncate?_eq]
    split <;> rfl

theorem append?_eq (h : r.position ≤ r.segment.size) (v : Value) (format : Option String) :
    r.append? v format = some (r.append v format) := by
  cases v with
  | span s =>
    have hs : r.appendSpan? .span (Utf8.bytes s) (fun room => fittingBytes room s.toList) =
        some (r.appendSpan .span (Utf8.bytes s) fun room => fittingBytes room s.toList) :=
      appendSpan?_eq h (fun _ => rfl) _ (fittingBytes_le s.toList)
    rw [append?, append, hs]
  | ascii bytes =>
    have hs : r.appendSpan? .ascii bytes (fun room => room) =
        some (r.appendSpan .ascii bytes fun room => room) :=
      appendSpan?_eq h (fun _ => rfl) bytes fun room => Nat.le_refl room
    rw [append?, append, hs]
  | _ => exact appendValue?_eq h _ format

/-- No operation on a record with its bytes in place goes wrong. -/
theorem perform?_eq (h : r.position ≤ r.segment.size) (op : Operation) :
    r.perform? op = some (r.perform op) := by
  cases op with
  | add a =>
    cases a with
    | value v format => exact append?_eq h v format
    | field key v => exact appendField?_eq h key v
  | truncate => exact truncate?_eq r
  | reset loggerName level now thread => rfl
  | attach exception => rfl

theorem run?_eq {entries : List Stored} {marked : Bool} (h : r.Holds entries marked)
    (ops : List Operation) : r.run? ops = some (r.run ops) := by
  induction ops generalizing r entries marked with
  | nil => rfl
  | cons op ops ih =>
    -- of the invariant only the position inside of the segment is needed, but it is kept as a whole
    obtain ⟨entries', marked', h', _⟩ := h.perform op
    rw [run?, perform?_eq h.position_le op, Option.bind_some]
    exact ih h'

end Checks
end Record
end Logbook
