set_option autoImplicit false

/-!
# Lists of fields

A pass over a record notes where its fields start. A new list has room for as many fields as a
string table has strings; a copy of a list has room only for what it holds, and an offset beyond
the room is not noted.
-/
namespace Logbook.Render

structure FieldList where
  capacity : Nat := 255
  offsets : Array Nat := #[]
  deriving DecidableEq

namespace FieldList

def length (l : FieldList) : Nat := l.offsets.size

def clear (l : FieldList) : FieldList := { l with offsets := #[] }

def push (l : FieldList) (offset : Nat) : FieldList :=
  if l.offsets.size < l.capacity then { l with offsets := l.offsets.push offset } else l

/-- A copy of the list, which has no room to spare. -/
def copy (l : FieldList) : FieldList := { l with capacity := l.offsets.size }

theorem toList_push_of_lt {l : FieldList} (h : l.offsets.size < l.capacity) (offset : Nat) :
    (l.push offset).offsets.toList = l.offsets.toList ++ [offset] := by
  simp [push, h]

theorem push_eq_self_of_le {l : FieldList} (h : l.capacity ≤ l.offsets.size) (offset : Nat) :
    l.push offset = l := by
  simp [push, Nat.not_lt.2 h]

end FieldList
end Logbook.Render
