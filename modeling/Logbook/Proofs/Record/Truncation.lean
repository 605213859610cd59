import Logbook.Proofs.Record.Operation
set_option autoImplicit false

/-!
# Where a record is cut

Additions are stored one after the other up to the first that does not fit. That one cuts the
record, and what comes after it leaves no trace. Which addition it is follows from the sizes alone.
-/
namespace Logbook

open Calendar Record Text

namespace Record

namespace Addition

def totalSize : List Addition → Nat
  | [] => 0
  | a :: rest => a.size + totalSize rest

def totalSlots : List Addition → Nat
  | [] => 0
  | a :: rest => a.slots + totalSlots rest

def entries (index : Nat) : List Addition → List Stored
  | [] => []
  | a :: rest => a.stored (UInt8.ofNat index) :: entries (index + a.slots) rest

def FitIn (room free : Nat) : List Addition → Prop
  | [] => True
  | a :: rest => (a.size ≤ room ∧ a.slots ≤ free) ∧ FitIn (room - a.size) (free - a.slots) rest

structure FirstMisfit (room free : Nat) (additions before : List Addition) (a : Addition)
    (after : List Addition) : Prop where
  split : additions = before ++ a :: after
  before_fit : FitIn room free before
  misfit : ¬ (a.size ≤ room - totalSize before ∧ a.slots ≤ free - totalSlots before)

/-- What of an addition that does not fit into `room` bytes is kept: of a span that stands alone
the longest beginning that fits after a header, if it is not empty; of all else nothing. -/
def KeepsPart (room : Nat) : Addition → List Stored → Prop
  | .value (.span s) _, part =>
    ∃ kept, IsLongestWithin (fun cs => (utf8.encodeChars cs).length) (room - spanHeader) kept
        s.toList ∧
      part = if kept = [] then [] else [.value ⟨none, .span (utf8.encodeChars kept)⟩]
  | .value (.ascii bytes) _, part =>
    ∃ kept, IsLongestWithin List.length (room - spanHeader) kept bytes ∧
      part = if kept = [] then [] else [.value ⟨none, .ascii kept⟩]
  | _, part => part = []

theorem fitIn_or_firstMisfit (room free : Nat) (additions : List Addition) :
    FitIn room free additions ∨
      ∃ before a after, FirstMisfit room free additions before a after := by
  induction additions generalizing room free with
  | nil => exact .inl trivial
  | cons a rest ih =>
    by_cases hf : a.size ≤ room ∧ a.slots ≤ free
    · rcases ih (room - a.size) (free - a.slots) with hrest | ⟨before, b, after, h⟩
      · exact .inl ⟨hf, hrest⟩
      · refine .inr ⟨a :: before, b, after, ?_, ⟨hf, h.before_fit⟩, ?_⟩
        · rw [h.split, List.cons_append]
        · have hmisfit := h.misfit
          simp only [totalSize, totalSlots, Nat.sub_add_eq] at hmisfit ⊢
          exact hmisfit
    · exact .inr ⟨[], a, rest, rfl, trivial, hf⟩

theorem keepsPart_part? (room : Nat) (a : Addition) : a.KeepsPart room (a.part? room).toList := by
  cases a with
  | value v format =>
    cases v with
    | span s =>
      refine ⟨utf8.fit (room - spanHeader) s.toList, utf8.fit_isLongest _ _, ?_⟩
      rw [part?]
      split <;> rfl
    | ascii bytes =>
      refine ⟨bytes.take (room - spanHeader), isLongestWithin_take _ _, ?_⟩
      rw [part?]
      split <;> rfl
    | _ => rfl
  | field key v => rfl

end Addition

open Addition

structure Stores (r : Record) (additions : List Addition) (after : Record) : Prop where
  truncated_eq : after.truncated = false
  encoded_eq : after.encoded =
    r.encoded ++ (entries r.strings.size additions).flatMap Stored.bytes
  strings_eq : after.strings.toList = r.strings.toList ++ additions.flatMap Addition.strings
  remaining_eq : after.remaining = r.remaining - totalSize additions
  count_eq : after.strings.size = r.strings.size + totalSlots additions
  capacity_eq : after.stringCapacity = r.stringCapacity
  strings_le : after.strings.size ≤ after.stringCapacity

theorem stores_extend {r : Record} (ht : r.truncated = false) {a : Addition} (h : r.Fits a) :
    r.Stores [a] (r.extend a) := by
  have hcount : (r.extend a).strings.size = r.strings.size + a.slots := by
    rw [extend_of_fits ht h, size_strings_intern, strings_put]
    rfl
  constructor
  case truncated_eq => rw [extend_of_fits ht h, truncated_intern, truncated_put, ht]
  case encoded_eq =>
    rw [extend_of_fits ht h, encoded_intern, encoded_put, entries, entries, List.flatMap_singleton]
    rfl
  case strings_eq =>
    rw [extend_of_fits ht h, toList_strings_intern, strings_put, List.flatMap_singleton]
  case remaining_eq =>
    rw [extend_of_fits ht h, remaining, remaining, segment_intern, segmentSize_put,
      position_intern, position_put, a.length_bytes_stored]
    simp only [totalSize]
    omega
  case count_eq => simp [hcount, totalSlots]
  case capacity_eq => rw [extend_of_fits ht h, stringCapacity_intern, stringCapacity_put]
  case strings_le =>
    have hle := h.2
    rw [hcount, extend_of_fits ht h, stringCapacity_intern, stringCapacity_put]
    exact hle

theorem Stores.cons {r middle after : Record} {a : Addition} {rest : List Addition}
    (h : r.Stores [a] middle) (h' : middle.Stores rest after) :
    r.Stores (a :: rest) after := by
  have hcount := h.count_eq
  simp only [totalSlots, Nat.add_zero] at hcount
  constructor
  case truncated_eq => exact h'.truncated_eq
  case encoded_eq =>
    rw [h'.encoded_eq, h.encoded_eq, hcount, List.append_assoc]
    simp [entries]
  case strings_eq =>
    rw [h'.strings_eq, h.strings_eq, List.append_assoc]
    simp
  case remaining_eq =>
    rw [h'.remaining_eq, h.remaining_eq]
    simp only [totalSize]
    omega
  case count_eq =>
    rw [h'.count_eq, hcount]
    simp only [totalSlots]
    omega
  case capacity_eq => exact h'.capacity_eq.trans h.capacity_eq
  case strings_le => exact h'.strings_le

theorem stores_extendAll {r : Record} (ht : r.truncated = false)
    (hs : r.strings.size ≤ r.stringCapacity) {additions : List Addition}
    (h : FitIn r.remaining (r.stringCapacity - r.strings.size) additions) :
    r.Stores additions (r.extendAll additions) := by
  induction additions generalizing r with
  | nil => exact ⟨ht, by simp [extendAll, entries], by simp [extendAll], rfl, rfl, rfl, hs⟩
  | cons a rest ih =>
    obtain ⟨⟨hsize, hslots⟩, hrest⟩ := h
    have hone := stores_extend ht (a := a) ⟨hsize, by omega⟩
    have hremaining := hone.remaining_eq
    have hcount := hone.count_eq
    simp only [totalSize, totalSlots, Nat.add_zero] at hremaining hcount
    rw [← hremaining, ← Nat.sub_add_eq, ← hcount, ← hone.capacity_eq] at hrest
    exact hone.cons (ih hone.truncated_eq hone.strings_le hrest)

theorem encoded_putPart (r : Record) (part : Option Stored) :
    (r.putPart part).encoded = r.encoded ++ part.toList.flatMap Stored.bytes ∧
      (r.putPart part).remaining =
        r.remaining - (part.toList.flatMap Stored.bytes).length := by
  cases part with
  | none => simp [putPart]
  | some s =>
    refine ⟨?_, ?_⟩
    · rw [putPart, encoded_put]
      simp
    · rw [putPart, remaining, remaining, segmentSize_put, position_put]
      simp only [Option.toList_some, List.flatMap_singleton]
      omega

/-- An addition that does not fit leaves its part and an end marker, and no string. -/
theorem encoded_extend_of_not_fits {r : Record} (ht : r.truncated = false)
    (hs : r.strings.size ≤ r.stringCapacity) {a : Addition} (h : ¬ r.Fits a) :
    (r.extend a).truncated = true ∧ (r.extend a).strings = r.strings ∧
    ∃ part, a.KeepsPart r.remaining part ∧
      (r.extend a).encoded = r.encoded ++ part.flatMap Stored.bytes ++
        marker (r.remaining - (part.flatMap Stored.bytes).length) := by
  obtain ⟨hencoded, hremaining⟩ := r.encoded_putPart (a.part? r.remaining)
  rw [extend_of_not_fits ht hs h]
  refine ⟨truncated_truncate _, ?_, (a.part? r.remaining).toList, keepsPart_part? _ a, ?_⟩
  · rw [strings_truncate, strings_putPart]
  · rw [encoded_truncate ((truncated_putPart r _).trans ht), hencoded, hremaining]

theorem extendAll_of_firstMisfit {r : Record} (ht : r.truncated = false)
    (hs : r.strings.size ≤ r.stringCapacity) {additions before after : List Addition}
    {a : Addition}
    (h : FirstMisfit r.remaining (r.stringCapacity - r.strings.size) additions before a after) :
    (r.extendAll additions).truncated = true ∧
    (r.extendAll additions).strings.toList =
      r.strings.toList ++ before.flatMap Addition.strings ∧
    r.extendAll additions = r.extendAll (before ++ [a]) ∧
    ∃ part, a.KeepsPart (r.remaining - totalSize before) part ∧
      (r.extendAll additions).encoded =
        r.encoded ++ (entries r.strings.size before).flatMap Stored.bytes ++
          part.flatMap Stored.bytes ++
          marker (r.remaining - totalSize before - (part.flatMap Stored.bytes).length) := by
  have hbefore := stores_extendAll ht hs h.before_fit
  have hmisfit : ¬ (r.extendAll before).Fits a := by
    intro hf
    have hsize := hf.1
    have hslots := hf.2
    rw [hbefore.remaining_eq] at hsize
    rw [hbefore.count_eq, hbefore.capacity_eq] at hslots
    exact h.misfit ⟨hsize, by omega⟩
  obtain ⟨htruncated, hsame, part, hpart, hbytes⟩ :=
    encoded_extend_of_not_fits hbefore.truncated_eq hbefore.strings_le hmisfit
  have hlast : r.extendAll (before ++ [a]) = (r.extendAll before).extend a := by
    rw [extendAll_append]
    rfl
  -- what follows meets a record that is cut
  have hall : r.extendAll additions = (r.extendAll before).extend a := by
    rw [h.split, extendAll_append]
    exact extendAll_of_truncated htruncated after
  rw [hlast, hall]
  refine ⟨htruncated, ?_, rfl, part, ?_, ?_⟩
  · rw [hsame]
    exact hbefore.strings_eq
  · rw [← hbefore.remaining_eq]
    exact hpart
  · rw [hbytes, hbefore.encoded_eq, hbefore.remaining_eq]

/-- What a freshly reset record holds after some additions. If all fit, it holds all of them.
Otherwise it holds those before the first that does not fit, of that one the part that may be kept,
and an end marker if there is a byte for it; the additions after it change nothing. -/
theorem extendAll_exact (segment : Segment) (capacity serial : Nat) (loggerName : Option Label)
    (level : Level) (now : Instant) (thread : String) (additions : List Addition) :
    let start := (create segment capacity serial).reset loggerName level now thread
    let free := min capacity maxStringCapacity
    let r := start.extendAll additions
    (FitIn segment.size free additions ∨
      ∃ before a after, FirstMisfit segment.size free additions before a after) ∧
    (FitIn segment.size free additions →
      r.truncated = false ∧ r.strings.toList = additions.flatMap Addition.strings ∧
      r.encoded = (entries 0 additions).flatMap Stored.bytes) ∧
    ∀ before a after, FirstMisfit segment.size free additions before a after →
      r.truncated = true ∧ r.strings.toList = before.flatMap Addition.strings ∧
      r = start.extendAll (before ++ [a]) ∧
      ∃ part, a.KeepsPart (segment.size - totalSize before) part ∧
        r.encoded = (entries 0 before).flatMap Stored.bytes ++ part.flatMap Stored.bytes ++
          marker (segment.size - totalSize before - (part.flatMap Stored.bytes).length) := by
  intro start free r
  have hstart : start.encoded = [] := List.length_eq_zero_iff.1 (length_encoded start)
  have hfree : start.strings.size ≤ start.stringCapacity := Nat.zero_le _
  refine ⟨fitIn_or_firstMisfit _ _ _, ?_, ?_⟩
  · intro h
    have hall : start.Stores additions r := stores_extendAll rfl hfree h
    refine ⟨hall.truncated_eq, hall.strings_eq, ?_⟩
    rw [hall.encoded_eq, hstart]
    rfl
  · intro before a after h
    obtain ⟨htruncated, hstrings, hlast, part, hpart, hbytes⟩ :=
      extendAll_of_firstMisfit (r := start) rfl hfree h
    refine ⟨htruncated, hstrings, hlast, part, hpart, ?_⟩
    rw [hstart] at hbytes
    exact hbytes

/-- Of a text of five bytes in a segment of eight the two characters of one byte each are kept, and
what is added later is not seen. -/
theorem extendAll_exact_cut_text :
    let start := (create (Segment.zeroed 8) 0 0).reset none .info .epoch "main"
    let text := Addition.value (.span "ab€") none
    let later := Addition.value (.bool true) none
    FirstMisfit 8 0 [text, later] [] text [later] ∧
      (start.extendAll [text, later]).truncated = true ∧
      start.extendAll [text, later] = start.extendAll [text] ∧
      (start.extendAll [text, later]).encoded = [3, 2, 0, 0, 0, 97, 98, 32] := by
  intro start text later
  have h : FirstMisfit 8 0 [text, later] [] text [later] := ⟨rfl, trivial, by decide⟩
  obtain ⟨htruncated, _, hsame, _⟩ :=
    (extendAll_exact (Segment.zeroed 8) 0 0 none .info .epoch "main" [text, later]).2.2 _ _ _ h
  exact ⟨h, htruncated, hsame, by decide⟩

end Record
end Logbook
