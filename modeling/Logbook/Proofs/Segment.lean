import Logbook.Segment
set_option autoImplicit false

/-!
# Writing into a segment

A write leaves the bytes before it alone, and writing bytes one by one is writing them together.
`writeReserved?` writes into a reserved part of a segment and refuses any byte that would fall
outside of it.
-/
namespace Logbook.Segment

def filled (s : Segment) (position : Nat) : Array UInt8 :=
  s.written ++ Array.replicate (position - s.written.size) 0

theorem le_size_filled (s : Segment) (position : Nat) : position ≤ (s.filled position).size := by
  simp only [filled, Array.size_append, Array.size_replicate]
  omega

theorem take_filled (s : Segment) (position : Nat) :
    (s.filled position).toList.take position = s.firstBytes position := by
  rw [filled, Array.toList_append, Array.toList_replicate, List.take_append, List.take_replicate,
    Array.length_toList, Nat.min_self, firstBytes]

theorem written_write (s : Segment) (position : Nat) (bytes : List UInt8) :
    (s.write position bytes).written = overwrite (s.filled position) position bytes := rfl

theorem toList_written_write (s : Segment) (position : Nat) (bytes : List UInt8) :
    (s.write position bytes).written.toList = (s.firstBytes position ++ bytes) ++
      (s.filled position).toList.drop (position + bytes.length) := by
  rw [written_write, toList_overwrite _ _ _ (s.le_size_filled position), take_filled]

theorem length_firstBytes_append (s : Segment) (position : Nat) (bytes : List UInt8) :
    (s.firstBytes position ++ bytes).length = position + bytes.length := by
  rw [List.length_append, length_firstBytes]

theorem firstBytes_write (s : Segment) (position : Nat) (bytes : List UInt8) :
    (s.write position bytes).firstBytes (position + bytes.length) =
      s.firstBytes position ++ bytes := by
  have hw := s.toList_written_write position bytes
  have hlen := s.length_firstBytes_append position bytes
  have hsize : position + bytes.length - (s.write position bytes).written.size = 0 := by
    rw [← Array.length_toList, hw, List.length_append, hlen]
    omega
  rw [firstBytes, hw, hsize, List.take_left' hlen, List.replicate_zero, List.append_nil]

theorem take_firstBytes (s : Segment) {count more : Nat} (h : count ≤ more) :
    (s.firstBytes more).take count = s.firstBytes count := by
  rw [firstBytes, firstBytes, List.take_append, List.take_take, List.take_replicate,
    Nat.min_eq_left h, List.length_take, Array.length_toList]
  congr 2
  omega

theorem drop_firstBytes_write (s : Segment) {position count : Nat} {bytes : List UInt8}
    (h : position + bytes.length ≤ count) :
    ((s.write position bytes).firstBytes count).drop (position + bytes.length) =
      (s.firstBytes count).drop (position + bytes.length) := by
  have hw := s.toList_written_write position bytes
  have hlen := s.length_firstBytes_append position bytes
  have hsize : (s.write position bytes).written.size = position + bytes.length +
      ((s.filled position).size - (position + bytes.length)) := by
    have hlist := congrArg List.length hw
    rw [List.length_append, hlen, List.length_drop] at hlist
    exact hlist
  have hold : s.written.toList.length = s.written.size := rfl
  rw [firstBytes, firstBytes, hw, List.take_append, hlen, List.take_of_length_le (by omega),
    List.append_assoc, List.drop_left' hlen, hsize]
  by_cases hwritten : position + bytes.length ≤ s.written.size
  · -- the segment was written beyond that point before, and is not filled up with zeros
    have hfilled : s.filled position = s.written := by
      rw [filled, Nat.sub_eq_zero_of_le (by omega), Array.replicate_zero, Array.append_empty]
    rw [hfilled, List.drop_append_of_le_length (by rw [List.length_take]; omega), List.drop_take]
    congr 2
    omega
  · have hsmall : (s.filled position).size ≤ position + bytes.length := by
      simp only [filled, Array.size_append, Array.size_replicate]
      omega
    rw [List.drop_eq_nil_of_le hsmall, Nat.sub_eq_zero_of_le hsmall, List.take_nil,
      List.nil_append, List.drop_append,
      List.drop_eq_nil_of_le (by rw [List.length_take]; omega), List.nil_append,
      List.drop_replicate, List.length_take]
    congr 1
    omega

theorem firstBytes_write_within (s : Segment) {position count : Nat} {bytes : List UInt8}
    (h : position + bytes.length ≤ count) :
    (s.write position bytes).firstBytes count =
      (s.firstBytes count).take position ++ bytes ++
        (s.firstBytes count).drop (position + bytes.length) := by
  rw [s.take_firstBytes (by omega), ← s.firstBytes_write, ← s.drop_firstBytes_write h,
    ← (s.write position bytes).take_firstBytes h, List.take_append_drop]

theorem write_cons (s : Segment) (position : Nat) (b : UInt8) (rest : List UInt8) :
    s.write position (b :: rest) = (s.write position [b]).write (position + 1) rest := by
  have hsize : position + 1 ≤ (s.write position [b]).written.size := by
    have hlen := congrArg List.length
      (toList_overwrite (s.filled position) position [b] (s.le_size_filled position))
    have hle := s.le_size_filled position
    simp only [List.length_append, List.length_take, List.length_drop, List.length_singleton,
      Array.length_toList] at hlen
    rw [written_write, hlen]
    omega
  have hnone : position + 1 - (s.write position [b]).written.size = 0 := by omega
  have hsame : (s.write position [b]).filled (position + 1) = (s.write position [b]).written := by
    rw [filled, hnone, Array.replicate_zero, Array.append_empty]
  have hw : (s.write position (b :: rest)).written =
      ((s.write position [b]).write (position + 1) rest).written := by
    rw [written_write, written_write, hsame, written_write]
    rfl
  simp only [write] at hw ⊢
  rw [hw]

/-- Writes bytes one by one into the `length` bytes reserved from `start` on, beginning at an
offset; fails at the first byte that lies outside of the reserved part or of the segment. -/
def writeReserved? (s : Segment) (start length : Nat) : Nat → List UInt8 → Option Segment
  | _, [] => some s
  | offset, b :: rest =>
    if offset < length ∧ start + offset < s.size then
      (s.write (start + offset) [b]).writeReserved? start length (offset + 1) rest
    else none

theorem writeReserved?_eq {s : Segment} {start length offset : Nat} {bytes : List UInt8}
    (hne : bytes ≠ []) (hl : offset + bytes.length ≤ length) (hs : start + length ≤ s.size) :
    s.writeReserved? start length offset bytes = some (s.write (start + offset) bytes) := by
  induction bytes generalizing s offset with
  | nil => exact absurd rfl hne
  | cons b rest ih =>
    rw [List.length_cons] at hl
    rw [writeReserved?, if_pos ⟨by omega, by omega⟩]
    cases rest with
    | nil => rfl
    | cons c rest =>
      have hrest := @ih (s.write (start + offset) [b]) (offset + 1)
        (List.cons_ne_nil c rest) (by omega) hs
      rw [hrest, s.write_cons (start + offset) b (c :: rest), Nat.add_assoc]

end Logbook.Segment
