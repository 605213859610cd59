set_option autoImplicit false

/-!
# Text set into a column

A column cuts a text to at most `limit` characters and then fills it up to `width` characters.
Widths count characters, not bytes.
-/
namespace Logbook.Text

inductive Alignment where
  | left
  | right
  | center
  deriving DecidableEq

structure Column where
  width : Nat := 0
  /-- The text is cut to this many characters first. -/
  limit : Option Nat := none
  alignment : Alignment := .left
  fill : Char := ' '

namespace Column

/-- Fill characters before the text when `gap` are needed; the centre leans to the left. -/
def lead (column : Column) (gap : Nat) : Nat :=
  match column.alignment with
  | .left => 0
  | .right => gap
  | .center => gap / 2

def cut (column : Column) (text : List Char) : List Char :=
  match column.limit with
  | some limit => text.take limit
  | none => text

def set (column : Column) (text : String) : String :=
  let body := column.cut text.toList
  let gap := column.width - body.length
  String.ofList (List.replicate (column.lead gap) column.fill ++ body ++
    List.replicate (gap - column.lead gap) column.fill)

theorem lead_le (column : Column) (gap : Nat) : column.lead gap ≤ gap := by
  unfold lead
  split <;> omega

theorem length_set (column : Column) (text : String) :
    (column.set text).toList.length = max column.width (column.cut text.toList).length := by
  have h := column.lead_le (column.width - (column.cut text.toList).length)
  simp only [set, String.toList_ofList, List.length_append, List.length_replicate]
  omega

end Column
end Logbook.Text
