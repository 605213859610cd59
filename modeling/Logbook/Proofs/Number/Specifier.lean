import Logbook.Number.Specifier
set_option autoImplicit false

/-!
# Format strings that are specifiers

`Spells` says what a specifier looks like: a letter and at most two digits, nothing else. Exactly
those are taken for one, and a precision is at most ninety-nine.
-/
namespace Logbook.Number.Specifier

/-- One ASCII letter, then at most two ASCII digits. -/
structure Spells (format : String) (letter : Char) (digits : List Char) : Prop where
  toList_eq : format.toList = letter :: digits
  isAlpha : letter.isAlpha = true
  isDigit : ∀ c ∈ digits, c.isDigit = true
  length_le : digits.length ≤ 2

theorem Spells.letter_eq {format : String} {letter letter' : Char} {digits digits' : List Char}
    (h : Spells format letter digits) (h' : Spells format letter' digits') : letter' = letter :=
  (List.cons.inj (h'.toList_eq.symm.trans h.toList_eq)).1

def named (digits : List Char) : Option Nat :=
  if digits = [] then none else some (Nat.ofDigitChars 10 digits 0)

theorem precision?_eq (digits : List Char) :
    precision? digits =
      if digits.all Char.isDigit && decide (digits.length ≤ 2) then some (named digits)
      else none := by
  match digits with
  | [] => rfl
  | [a] => simp [precision?, named]
  | [a, b] => simp [precision?, named]
  | a :: b :: c :: rest => simp [precision?]

theorem parse?_of_spells {format : String} {letter : Char} {digits : List Char}
    (h : Spells format letter digits) : parse? format = some ⟨letter, named digits⟩ := by
  have hall : digits.all Char.isDigit = true := List.all_eq_true.2 h.isDigit
  simp only [parse?, h.toList_eq, h.isAlpha, precision?_eq, hall, h.length_le, decide_true,
    Bool.and_self, ↓reduceIte, Option.map_some]

theorem parse?_eq_some_iff {format : String} {s : Specifier} :
    parse? format = some s ↔ ∃ digits, Spells format s.letter digits ∧ s.precision = named digits := by
  constructor
  · intro h
    unfold parse? at h
    split at h
    · cases h
    · rename_i letter digits hformat
      rw [precision?_eq] at h
      split at h
      · rename_i halpha
        split at h
        · rename_i hdigits
          rw [Bool.and_eq_true, decide_eq_true_eq] at hdigits
          obtain rfl := Option.some.inj h
          exact ⟨digits, ⟨hformat, halpha, List.all_eq_true.1 hdigits.1, hdigits.2⟩, rfl⟩
        · cases h
      · cases h
  · rintro ⟨digits, hspells, hnamed⟩
    rw [parse?_of_spells hspells, ← hnamed]

theorem parse?_eq_none_iff {format : String} :
    parse? format = none ↔ ∀ letter digits, ¬Spells format letter digits := by
  constructor
  · intro h letter digits hspells
    rw [parse?_of_spells hspells] at h
    cases h
  · intro h
    cases hs : parse? format with
    | none => rfl
    | some s =>
      obtain ⟨digits, hspells, -⟩ := parse?_eq_some_iff.1 hs
      exact absurd hspells (h s.letter digits)

theorem ofDigitChars_le {digits : List Char} (hdigits : ∀ c ∈ digits, c.isDigit = true)
    (hlength : digits.length ≤ 2) : Nat.ofDigitChars 10 digits 0 ≤ 99 := by
  have hle : ∀ c ∈ digits, c.toNat - '0'.toNat ≤ 9 := by
    intro c hc
    have hdigit := hdigits c hc
    simp only [Char.isDigit, Bool.and_eq_true, decide_eq_true_eq] at hdigit
    have hnine : c.toNat ≤ 57 := hdigit.2
    have hzero : '0'.toNat = 48 := rfl
    omega
  match digits, hlength with
  | [], _ => exact Nat.zero_le _
  | [a], _ =>
    have ha := hle a (by simp)
    simp only [Nat.ofDigitChars, List.foldl_cons, List.foldl_nil]
    omega
  | [a, b], _ =>
    have ha := hle a (by simp)
    have hb := hle b (by simp)
    simp only [Nat.ofDigitChars, List.foldl_cons, List.foldl_nil]
    omega

theorem places_le {format : String} {s : Specifier} (h : parse? format = some s) (default : Nat)
    (hdefault : default ≤ 99) : s.places default ≤ 99 := by
  obtain ⟨digits, hspells, hnamed⟩ := parse?_eq_some_iff.1 h
  rw [places, hnamed, named]
  split
  · exact hdefault
  · exact ofDigitChars_le hspells.isDigit hspells.length_le

end Logbook.Number.Specifier
