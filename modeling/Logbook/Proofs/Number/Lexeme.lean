import Logbook.Number.Decimal96
import Logbook.Number.IntegerText
import Logbook.Proofs.Text.Json
set_option autoImplicit false

/-!
# Default texts as JSON numbers

The default texts of integers, decimals and finite floating-point numbers are numbers of JSON as
they stand: an optional sign, digits without a zero too many, and a fraction with at least one
digit.
-/
namespace Logbook.Number

open Text.Json

theorem isDigits_decimal (n : Nat) : IsDigits (decimal n) :=
  ⟨decimal_ne_nil n, fun _ hc => isDigit_of_mem_decimal hc⟩

theorem isDigits_append_zeros {cs : List Char} (h : IsDigits cs) (count : Nat) :
    IsDigits (cs ++ List.replicate count '0') := by
  refine ⟨fun hnil => h.1 (List.append_eq_nil_iff.1 hnil).1, fun c hc => ?_⟩
  rcases List.mem_append.1 hc with hold | hzero
  · exact h.2 c hold
  · rw [List.eq_of_mem_replicate hzero]
    rfl

theorem isDigits_zeroPad {cs : List Char} (h : IsDigits cs) (width : Nat) :
    IsDigits (zeroPad width cs) := by
  refine ⟨fun hnil => h.1 (List.append_eq_nil_iff.1 hnil).2, fun c hc => ?_⟩
  rcases List.mem_append.1 hc with hzero | hold
  · rw [List.eq_of_mem_replicate hzero]
    rfl
  · exact h.2 c hold

theorem head?_decimal_append (n : Nat) (more : List Char) :
    (decimal n ++ more).head? = (decimal n).head? := by
  obtain ⟨c, rest, hcons⟩ := List.exists_cons_of_ne_nil (decimal_ne_nil n)
  rw [hcons]
  rfl

theorem eq_zero_of_head_decimal {n : Nat} (h : (decimal n).head? = some '0') : n = 0 := by
  induction n using Nat.strongRecOn with
  | ind n ih =>
    by_cases hlt : n < 10
    · rw [decimal, Nat.toDigits_of_lt_base hlt] at h
      exact Nat.digitChar_eq_zero.1 (Option.some.inj h)
    · have hle : 10 ≤ n := Nat.le_of_not_lt hlt
      have hdiv : n / 10 < n := Nat.div_lt_self (by omega) (by decide)
      have hhead : (decimal (n / 10)).head? = some '0' := by
        rw [decimal, Nat.toDigits_of_base_le (by decide) hle] at h
        rw [← h]
        exact (head?_decimal_append (n / 10) _).symm
      have hzero := ih (n / 10) hdiv hhead
      omega

theorem isWhole_decimal (n : Nat) : IsWhole (decimal n) := by
  refine ⟨isDigits_decimal n, fun hhead => ?_⟩
  rw [eq_zero_of_head_decimal hhead]
  rfl

theorem isWhole_decimal_zeros {n : Nat} (hn : n ≠ 0) (count : Nat) :
    IsWhole (decimal n ++ List.replicate count '0') := by
  refine ⟨isDigits_append_zeros (isDigits_decimal n) count, fun hhead => ?_⟩
  rw [head?_decimal_append] at hhead
  exact absurd (eq_zero_of_head_decimal hhead) hn

theorem isNumber_signed {whole fraction : List Char} (hwhole : IsWhole whole)
    (hfraction : fraction = [] ∨ IsFraction fraction) (negative : Bool) :
    IsNumber (signed negative (whole ++ fraction)) := by
  cases negative with
  | true => exact ⟨['-'], whole, fraction, [], by simp [signed], .inr rfl, hwhole, hfraction, .inl rfl⟩
  | false => exact ⟨[], whole, fraction, [], by simp [signed], .inl rfl, hwhole, hfraction, .inl rfl⟩

theorem isNumber_signed_whole {whole : List Char} (h : IsWhole whole) (negative : Bool) :
    IsNumber (signed negative whole) := by
  have hnumber := isNumber_signed h (.inl rfl) negative
  rw [List.append_nil] at hnumber
  exact hnumber

theorem zeroPad_of_le {width : Nat} {digits : List Char} (h : width ≤ digits.length) :
    zeroPad width digits = digits := by
  rw [zeroPad, Nat.sub_eq_zero_of_le h]
  rfl

/-- What is before the point of a number with fraction digits: a zero, if zeros had to be put in
front, or the first digits of a number that is not zero. -/
theorem isWhole_take_zeroPad {places : Nat} (hplaces : 0 < places) (n : Nat) :
    IsWhole ((zeroPad (places + 1) (decimal n)).take
      ((zeroPad (places + 1) (decimal n)).length - places)) := by
  by_cases hshort : (decimal n).length ≤ places
  · have hone : (zeroPad (places + 1) (decimal n)).length - places = 1 := by
      rw [length_zeroPad]
      omega
    rw [hone, zeroPad, Nat.succ_sub hshort, List.replicate_succ]
    exact isWhole_decimal 0
  · rw [zeroPad_of_le (by omega)]
    have hpos : 0 < (decimal n).length - places := by omega
    refine ⟨⟨?_, fun c hc => isDigit_of_mem_decimal (List.mem_of_mem_take hc)⟩, fun hhead => ?_⟩
    · apply List.ne_nil_of_length_pos
      rw [List.length_take]
      omega
    · rw [List.head?_take, if_neg (Nat.ne_of_gt hpos)] at hhead
      rw [eq_zero_of_head_decimal hhead] at hshort
      exact absurd hplaces hshort

theorem isNumber_signed_pointed (negative : Bool) (places n : Nat) :
    IsNumber (signed negative (pointed places n)) := by
  have hlength := length_zeroPad (places + 1) (decimal n)
  rw [pointed]
  by_cases hplaces : places = 0
  · have hpad : zeroPad (0 + 1) (decimal n) = decimal n :=
      zeroPad_of_le (List.length_pos_iff.2 (decimal_ne_nil n))
    simp only [hplaces, ↓reduceIte, hpad]
    exact isNumber_signed_whole (isWhole_decimal n) negative
  · have hdigits := isDigits_zeroPad (isDigits_decimal n) (places + 1)
    simp only [hplaces, ↓reduceIte]
    apply isNumber_signed (isWhole_take_zeroPad (Nat.pos_of_ne_zero hplaces) n)
    refine .inr ⟨_, rfl, ?_, fun c hc => hdigits.2 c (List.mem_of_mem_drop hc)⟩
    apply List.ne_nil_of_length_pos
    rw [List.length_drop]
    omega

theorem isNumber_integer (n : Int) : IsNumber (integer n) :=
  isNumber_signed_whole (isWhole_decimal n.natAbs) _

theorem Decimal96.isNumber_plain (d : Decimal96) : IsNumber d.plain := by
  rw [plain, Rounded.fixed, Rounded.fixedDigits]
  split <;> exact isNumber_signed_pointed _ _ _

namespace Floating

theorem isNumber_signed_positional (negative : Bool) (digits : Nat) (place : Int) :
    IsNumber (signed negative (positional digits place)) := by
  rw [positional]
  split
  · split
    · exact isNumber_signed_whole (isWhole_decimal 0) negative
    · rename_i hne
      exact isNumber_signed_whole (isWhole_decimal_zeros hne _) negative
  · exact isNumber_signed_pointed negative _ _

theorem isNumber_plain {f : BinaryFormat} {x : Floating} (h : x.isFinite = true) :
    IsNumber (x.plain f) := by
  cases x with
  | nan => cases h
  | infinite negative => cases h
  | finite negative significand exponent => exact isNumber_signed_positional negative _ _

end Floating
end Logbook.Number
