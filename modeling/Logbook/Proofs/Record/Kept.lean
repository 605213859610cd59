import Logbook.Proofs.Record.Invariant
import Logbook.Proofs.Record.Truncation
set_option autoImplicit false

/-!
# What a record keeps of what was added

Of the additions since its last reset a record keeps the first ones, whole and in their order, and
perhaps a part of the next. The string table holds their strings and no others, so the strings of an
entry are found at its indices, and a record has no more fields than strings.
-/
namespace Logbook

open Calendar Record Text

/-- The additions since the last reset; `added` are those before the operation. -/
def Operation.sinceReset (added : List Addition) : Operation → List Addition
  | .add a => added ++ [a]
  | .truncate | .attach _ => added
  | .reset .. => []

def Operation.lastAdded (ops : List Operation) : List Addition := ops.foldl sinceReset []

theorem Operation.add_mem_of_mem_lastAdded {ops : List Operation} {a : Addition}
    (h : a ∈ lastAdded ops) : .add a ∈ ops := by
  have hall : ∀ (ops : List Operation) (added : List Addition),
      a ∈ ops.foldl sinceReset added → a ∈ added ∨ .add a ∈ ops := by
    intro ops
    induction ops with
    | nil => exact fun added h => .inl h
    | cons op ops ih =>
      intro added h
      rcases ih _ h with hold | hrest
      · cases op with
        | add b =>
          rcases List.mem_append.1 hold with hold | hnew
          · exact .inl hold
          · rw [List.mem_singleton.1 hnew]
            exact .inr List.mem_cons_self
        | truncate => exact .inl hold
        | attach exception => exact .inl hold
        | reset loggerName level now thread => cases hold
      · exact .inr (List.mem_cons_of_mem _ hrest)
  rcases hall ops [] h with hnil | hmem
  · cases hnil
  · exact hmem

namespace Record

namespace Addition

theorem entries_append (index : Nat) (a b : List Addition) :
    entries index (a ++ b) = entries index a ++ entries (index + totalSlots a) b := by
  induction a generalizing index with
  | nil => rfl
  | cons x a ih =>
    rw [List.cons_append, entries, entries, totalSlots, ih, List.cons_append, Nat.add_assoc]

theorem length_strings (additions : List Addition) :
    (additions.flatMap strings).length = totalSlots additions := by
  induction additions with
  | nil => rfl
  | cons a rest ih =>
    rw [List.flatMap_cons, List.length_append, ih]
    rfl

theorem exists_stored_of_mem_entries {index : Nat} {additions : List Addition} {s : Stored}
    (h : s ∈ entries index additions) : ∃ a ∈ additions, ∃ i, s = a.stored i := by
  induction additions generalizing index with
  | nil => cases h
  | cons a rest ih =>
    rcases List.mem_cons.1 h with rfl | hrest
    · exact ⟨a, List.mem_cons_self, _, rfl⟩
    · obtain ⟨b, hb, hstored⟩ := ih hrest
      exact ⟨b, List.mem_cons_of_mem a hb, hstored⟩

end Addition

open Addition

/-- Of the additions `asked` the record keeps `kept` whole, and of the next one `part`. -/
structure Keeps (r : Record) (asked kept : List Addition) (part : Option Stored)
    (marked : Bool) : Prop where
  holds : r.Holds (entries 0 kept ++ part.toList) marked
  strings_eq : r.strings.toList = kept.flatMap Addition.strings
  begins : kept <+: asked
  all_kept : r.truncated = false → kept = asked ∧ part = none
  part_of : ∀ s ∈ part, ∃ a ∈ asked, ∃ room, a.part? room = some s

namespace Keeps

variable {r : Record} {asked kept : List Addition} {part : Option Stored} {marked : Bool}

theorem create (segment : Segment) (capacity serial : Nat) :
    (Record.create segment capacity serial).Keeps [] [] none false where
  holds := Holds.create segment capacity serial
  strings_eq := rfl
  begins := List.prefix_refl []
  all_kept _ := ⟨rfl, rfl⟩
  part_of s hs := absurd hs (Option.not_mem_none s)

theorem size_strings (h : r.Keeps asked kept part marked) : r.strings.size = totalSlots kept := by
  rw [← Array.length_toList, h.strings_eq, length_strings]

theorem totalSlots_le (h : r.Keeps asked kept part marked) :
    totalSlots kept ≤ maxStringCapacity := by
  rw [← h.size_strings]
  exact Nat.le_trans h.holds.strings_le h.holds.capacity_le

theorem exists_writes (h : r.Keeps asked kept part marked) {s : Stored}
    (hs : s ∈ entries 0 kept ++ part.toList) : ∃ a ∈ asked, a.Writes s := by
  rcases List.mem_append.1 hs with hwhole | hpart
  · obtain ⟨a, ha, hstored⟩ := exists_stored_of_mem_entries hwhole
    exact ⟨a, h.begins.subset ha, .inl hstored⟩
  · obtain ⟨a, ha, hroom⟩ := h.part_of s (Option.mem_toList.1 hpart)
    exact ⟨a, ha, .inr hroom⟩

theorem perform (h : r.Keeps asked kept part marked) (op : Operation) :
    ∃ kept' part' marked', (r.perform op).Keeps (op.sinceReset asked) kept' part' marked' := by
  obtain ⟨marked', hholds⟩ := h.holds.perform_written op
  cases op with
  | add a =>
    have hmore : asked <+: asked ++ [a] := List.prefix_append asked [a]
    simp only [Record.perform, Operation.isReset, Bool.false_eq_true, ↓reduceIte] at hholds ⊢
    -- a cut record stays as it is; an addition that fits is kept; one that does not fit, of which a
    -- part may be kept, is the last
    rcases r.extend_cases h.holds.strings_le a with ⟨ht, heq⟩ | ⟨ht, hf, heq⟩ | ⟨ht, hf, heq⟩
    · rw [heq]
      refine ⟨kept, part, marked, h.holds, h.strings_eq, h.begins.trans hmore, ?_, ?_⟩
      · intro hwhole
        rw [ht] at hwhole
        cases hwhole
      · intro s hs
        obtain ⟨b, hb, hpart⟩ := h.part_of s hs
        exact ⟨b, List.mem_append_left [a] hb, hpart⟩
    · obtain ⟨rfl, rfl⟩ := h.all_kept ht
      have hindex : r.nextIndex = UInt8.ofNat (0 + totalSlots kept) := by
        rw [nextIndex, h.size_strings, Nat.zero_add]
      have hentries : entries 0 (kept ++ [a]) = entries 0 kept ++ [a.stored r.nextIndex] := by
        rw [entries_append, hindex]
        rfl
      have hstrings : (r.extend a).strings.toList = (kept ++ [a]).flatMap Addition.strings := by
        rw [heq, toList_strings_intern, strings_put, h.strings_eq, List.flatMap_append,
          List.flatMap_singleton]
      rw [written_of_fits ht hf, Option.toList_none, List.append_nil, ← hentries] at hholds
      refine ⟨kept ++ [a], none, marked', ?_, hstrings, List.prefix_refl _,
        fun _ => ⟨rfl, rfl⟩, fun s hs => absurd hs (Option.not_mem_none s)⟩
      rw [Option.toList_none, List.append_nil]
      exact hholds
    · obtain ⟨rfl, rfl⟩ := h.all_kept ht
      have hstrings : (r.extend a).strings.toList = kept.flatMap Addition.strings := by
        rw [heq, strings_truncate, strings_putPart, h.strings_eq]
      have htruncated : (r.extend a).truncated = true := by
        rw [heq]
        exact truncated_truncate _
      rw [written_of_not_fits ht hf, Option.toList_none, List.append_nil] at hholds
      refine ⟨kept, a.part? r.remaining, marked', hholds, hstrings, hmore, ?_, ?_⟩
      · intro hwhole
        rw [htruncated] at hwhole
        cases hwhole
      · intro s hs
        exact ⟨a, List.mem_append_right kept List.mem_cons_self, r.remaining, hs⟩
  | truncate =>
    rw [written, List.append_nil] at hholds
    refine ⟨kept, part, marked', hholds, ?_, h.begins, ?_, h.part_of⟩
    · rw [Record.perform, strings_truncate, h.strings_eq]
    · intro hwhole
      rw [Record.perform, truncated_truncate] at hwhole
      cases hwhole
  | reset loggerName level now thread =>
    exact ⟨[], none, marked', hholds, rfl, List.prefix_refl [], fun _ => ⟨rfl, rfl⟩,
      fun s hs => absurd hs (Option.not_mem_none s)⟩
  | attach exception =>
    rw [written, List.append_nil] at hholds
    exact ⟨kept, part, marked', hholds, h.strings_eq, h.begins, h.all_kept, h.part_of⟩

theorem run (h : r.Keeps asked kept part marked) (ops : List Operation) :
    ∃ kept' part' marked',
      (r.run ops).Keeps (ops.foldl Operation.sinceReset asked) kept' part' marked' := by
  induction ops generalizing r asked kept part marked with
  | nil => exact ⟨kept, part, marked, h⟩
  | cons op ops ih =>
    obtain ⟨kept', part', marked', h'⟩ := h.perform op
    exact ih h'

end Keeps

theorem keeps_run (segment : Segment) (capacity serial : Nat) (ops : List Operation) :
    ∃ kept part marked, ((create segment capacity serial).run ops).Keeps
      (Operation.lastAdded ops) kept part marked :=
  (Keeps.create segment capacity serial).run ops

theorem size_run_lt {segment : Segment} (hsize : segment.size < 0x1_0000_0000)
    (capacity serial : Nat) (ops : List Operation) :
    ((create segment capacity serial).run ops).segment.size < 0x1_0000_0000 := by
  rw [((Holds.create segment capacity serial).run_room ops).1]
  exact hsize

end Record
end Logbook
