import Logbook.Config.Error
set_option autoImplicit false

/-!
# Byte segments and the regions they are cut from

A segment is a fixed number of bytes, zero until they are written. Segments of one size are cut from
regions that hold a fixed number of them; a region is used up before the next is allocated. The
layout keeps regions within a gigabyte: the segment size is bounded first, then the number of
segments is halved until the region fits. A source does not hold the bytes of its regions but says
where each segment lies: it splits them off the front of what is left of the current region.
-/
namespace Logbook

/-- A fixed number of bytes. Only the bytes up to the last one written are kept; the others are
zero. -/
structure Segment where
  size : Nat
  written : Array UInt8 := #[]

namespace Segment

def zeroed (size : Nat) : Segment := { size }

def overwrite (bytes : Array UInt8) (position : Nat) : List UInt8 → Array UInt8
  | [] => bytes
  | b :: rest =>
    overwrite (if h : position < bytes.size then bytes.set position b else bytes.push b)
      (position + 1) rest

def write (s : Segment) (position : Nat) (bytes : List UInt8) : Segment :=
  { s with
    written := overwrite
      (s.written ++ Array.replicate (position - s.written.size) 0) position bytes }

def firstBytes (s : Segment) (count : Nat) : List UInt8 :=
  s.written.toList.take count ++ List.replicate (count - s.written.size) 0

def bytes (s : Segment) : List UInt8 := s.firstBytes s.size

def fill (s : Segment) (value : UInt8) : Segment :=
  { s with written := Array.replicate s.size value }

theorem length_firstBytes (s : Segment) (count : Nat) : (s.firstBytes count).length = count := by
  simp only [firstBytes, List.length_append, List.length_take, List.length_replicate,
    Array.length_toList]
  omega

theorem toList_overwrite (bytes : Array UInt8) (position : Nat) (more : List UInt8)
    (h : position ≤ bytes.size) :
    (overwrite bytes position more).toList =
      bytes.toList.take position ++ more ++ bytes.toList.drop (position + more.length) := by
  induction more generalizing bytes position with
  | nil => simp [overwrite]
  | cons b more ih =>
    rw [overwrite]
    split
    · rename_i hlt
      rw [ih _ _ (by simp; omega)]
      have hlen : position < bytes.toList.length := by simpa using hlt
      simp only [Array.toList_set, List.length_cons]
      have ht : (bytes.toList.set position b).take (position + 1) =
          bytes.toList.take position ++ [b] := by
        rw [List.take_set, List.take_add_one, List.getElem?_eq_getElem hlen]
        simp only [Option.toList_some]
        have hsize : (bytes.toList.take position).length = position := by
          rw [List.length_take]
          exact Nat.min_eq_left (Nat.le_of_lt hlen)
        rw [List.set_append_right _ _ (Nat.le_of_eq hsize), hsize, Nat.sub_self, List.set_cons_zero]
      have hd : (bytes.toList.set position b).drop (position + 1 + more.length) =
          bytes.toList.drop (position + (more.length + 1)) := by
        rw [List.drop_set_of_lt (by omega)]
        congr 1
        omega
      rw [ht, hd]
      simp
    · rename_i hge
      have heq : position = bytes.size := by omega
      rw [ih _ _ (by simp; omega)]
      subst heq
      have h1 : (bytes.push b).toList.take (bytes.size + 1) = bytes.toList ++ [b] := by
        rw [List.take_of_length_le (by simp)]
        simp
      have h2 : (bytes.push b).toList.drop (bytes.size + 1 + more.length) = [] := by
        apply List.drop_eq_nil_of_le
        simp
      have h3 : bytes.toList.drop (bytes.size + (b :: more).length) = [] := by
        apply List.drop_eq_nil_of_le
        simp
      have h4 : bytes.toList.take bytes.size = bytes.toList := by
        rw [List.take_of_length_le (by simp)]
      rw [h1, h2, h3, h4]
      simp

end Segment

def maxRegionSize : Nat := 1024 * 1024 * 1024

structure RegionLayout where
  count : Nat
  size : Nat
  deriving DecidableEq

namespace RegionLayout

def product? (a b : Nat) : Option Nat :=
  if a * b < 0x1_00000000_00000000 then some (a * b) else none

def exceeds (count size : Nat) : Bool := (product? count size).all (maxRegionSize < ·)

/-- Halves a number of segments until they fit in a region, but keeps at least one. -/
def fitCount (size : Nat) (count : Nat) : Nat :=
  if 1 < count ∧ exceeds count size then fitCount size (count / 2) else count
termination_by count
decreasing_by omega

def fit (count size : Nat) : RegionLayout :=
  let size := min size maxRegionSize
  ⟨fitCount size count, size⟩

theorem exceeds_iff (count size : Nat) : exceeds count size = true ↔ maxRegionSize < count * size := by
  rw [exceeds, product?]
  split
  · rw [Option.all_some, decide_eq_true_eq]
  · rename_i hlarge
    have hlt : maxRegionSize < 0x1_00000000_00000000 := by decide
    simp only [Option.all_none, true_iff]
    omega

end RegionLayout

structure Extent where
  region : Nat
  start : Nat
  size : Nat
  deriving DecidableEq

namespace Extent

def split? (e : Extent) (size : Nat) : Option (Extent × Extent) :=
  if size ≤ e.size then
    some (⟨e.region, e.start, size⟩, ⟨e.region, e.start + size, e.size - size⟩)
  else none

end Extent

structure SegmentSource where
  layout : RegionLayout
  /-- What is left of the current region, if one is allocated. -/
  rest : Option Extent := none
  issued : Nat := 0
  regions : Nat := 0

namespace SegmentSource

/-- A source for the given layout; of two faults the size is reported. -/
def create (count size : Nat) : Except ConfigError SegmentSource :=
  if size = 0 then .error .zeroSegmentSize
  else if count = 0 then .error .zeroSegmentCount
  else .ok { layout := RegionLayout.fit count size }

/-- Regions are numbered in the order in which they are allocated. -/
def allocate (source : SegmentSource) : Extent × SegmentSource :=
  (⟨source.regions, 0, source.layout.count * source.layout.size⟩,
    { source with issued := 0, regions := source.regions + 1 })

/-- What is left of the current region, or of a new one if there is none or it is used up. -/
def current (source : SegmentSource) : Extent × SegmentSource :=
  match if source.issued = source.layout.count then none else source.rest with
  | some rest => (rest, source)
  | none => source.allocate

def next? (source : SegmentSource) : Option (Extent × SegmentSource) :=
  let (rest, source) := source.current
  (rest.split? source.layout.size).map fun (segment, rest) =>
    (segment, { source with rest := some rest, issued := source.issued + 1 })

/-- The next segment, or one without bytes if it cannot be split off. -/
def next (source : SegmentSource) : Segment × SegmentSource :=
  match source.next? with
  | some (extent, source) => (Segment.zeroed extent.size, source)
  | none => (Segment.zeroed 0, source)

end SegmentSource
end Logbook
