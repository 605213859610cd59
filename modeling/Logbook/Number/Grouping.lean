set_option autoImplicit false

/-!
# Thousands separators

A comma stands before every digit of the integral part that is followed by a multiple of three
digits, itself included, except before the first. Signs and fractions are left alone.
-/
namespace Logbook.Number

def groupDigits : List Char → List Char
  | [] => []
  | digit :: rest =>
    if rest ≠ [] ∧ rest.length % 3 = 0 then digit :: ',' :: groupDigits rest
    else digit :: groupDigits rest

def groupUnsigned (text : List Char) : List Char :=
  groupDigits (text.takeWhile (· ≠ '.')) ++ text.dropWhile (· ≠ '.')

def group : List Char → List Char
  | '-' :: rest => '-' :: groupUnsigned rest
  | text => groupUnsigned text

theorem filter_groupDigits (digits : List Char) (h : ∀ d ∈ digits, d ≠ ',') :
    (groupDigits digits).filter (· ≠ ',') = digits := by
  induction digits with
  | nil => rfl
  | cons digit rest ih =>
    have hd : digit ≠ ',' := h digit (by simp)
    have hr := ih (fun d hd => h d (by simp [hd]))
    unfold groupDigits
    split <;> simp_all

theorem length_groupDigits (digits : List Char) :
    (groupDigits digits).length = digits.length + (digits.length - 1) / 3 := by
  induction digits with
  | nil => rfl
  | cons digit rest ih =>
    unfold groupDigits
    split
    · rename_i h
      have hpos : 0 < rest.length := List.length_pos_iff.2 h.1
      simp only [List.length_cons, ih]
      omega
    · rename_i h
      simp only [List.length_cons, ih]
      by_cases hr : rest = []
      · simp [hr]
      · have hpos : 0 < rest.length := List.length_pos_iff.2 hr
        have hm : rest.length % 3 ≠ 0 := fun h0 => h ⟨hr, h0⟩
        omega

end Logbook.Number
