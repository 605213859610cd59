import Logbook.Proofs.Number.Lexeme
import Logbook.Proofs.Number.Specifier
import Logbook.Record.Tag
import Mathlib.Tactic.NormNum
set_option autoImplicit false

/-!
# Grouped texts

In a plain decimal text a comma goes before every digit of the integral part from which a multiple of
three digits is left, except the first; the sign and the fraction stay as they are. A third as many
commas as there are digits go in, so a sign, 309 digits, a point and 99 more take exactly the 512
characters that are there to work on. No finite number is longer than that, and no integer of 128
bits too long either, so what is to be grouped always is.
-/
namespace Logbook.Number

open Record Text.Json

/-- A comma before each digit that is not the first and has a multiple of three digits from it to the
end. -/
def withCommas (whole : List Char) : List Char :=
  whole.zipIdx.flatMap fun (digit, index) =>
    if 0 < index ∧ 3 ∣ whole.length - index then [',', digit] else [digit]

/-- A plain decimal text: perhaps a sign, digits, and perhaps a point and digits. -/
structure IsPlain (negative : Bool) (whole fraction text : List Char) : Prop where
  text_eq : text = signed negative (whole ++ fraction)
  whole_isDigits : IsDigits whole
  fraction_cases : fraction = [] ∨
    ∃ digits, fraction = '.' :: digits ∧ ∀ c ∈ digits, c.isDigit = true

theorem groupDigits_cons (digit : Char) (rest : List Char) :
    groupDigits (digit :: rest) =
      digit :: ((if rest ≠ [] ∧ 3 ∣ rest.length then [','] else []) ++ groupDigits rest) := by
  simp only [groupDigits, Nat.dvd_iff_mod_eq_zero]
  split <;> rfl

theorem flatMap_zipIdx_eq (total : Nat) (rest : List Char) {index : Nat} (hindex : 0 < index)
    (htotal : index + rest.length = total) :
    ((rest.zipIdx index).flatMap fun (digit, index) =>
        if 0 < index ∧ 3 ∣ total - index then [',', digit] else [digit]) =
      (if rest ≠ [] ∧ 3 ∣ rest.length then [','] else []) ++ groupDigits rest := by
  induction rest generalizing index with
  | nil => rfl
  | cons digit rest ih =>
    rw [List.length_cons] at htotal
    have hleft : total - index = (digit :: rest).length := by
      rw [List.length_cons]
      omega
    rw [List.zipIdx_cons, List.flatMap_cons, ih (Nat.succ_pos index) (by omega), groupDigits_cons]
    simp only [hleft, hindex, ne_eq, reduceCtorEq, not_false_eq_true, true_and]
    split <;> rfl

theorem groupDigits_eq (whole : List Char) : groupDigits whole = withCommas whole := by
  cases whole with
  | nil => rfl
  | cons digit rest =>
    rw [withCommas, List.zipIdx_cons, List.flatMap_cons,
      flatMap_zipIdx_eq (digit :: rest).length rest (Nat.succ_pos 0) (by
        rw [List.length_cons]
        omega), groupDigits_cons]
    simp only [Nat.lt_irrefl, false_and, ↓reduceIte]
    rfl

theorem ne_of_isDigit {c d : Char} (hc : c.isDigit = true) (hd : d.isDigit = false) : c ≠ d := by
  rintro rfl
  rw [hc] at hd
  cases hd

namespace IsPlain

variable {negative : Bool} {whole fraction text : List Char} (h : IsPlain negative whole fraction text)
include h

theorem takeWhile_point :
    (whole ++ fraction).takeWhile (· ≠ '.') = whole ∧
      (whole ++ fraction).dropWhile (· ≠ '.') = fraction := by
  have hwhole : ∀ c ∈ whole, decide (c ≠ '.') = true := fun c hc =>
    decide_eq_true (ne_of_isDigit (h.whole_isDigits.2 c hc) rfl)
  rw [List.takeWhile_append_of_pos hwhole, List.dropWhile_append_of_pos hwhole]
  rcases h.fraction_cases with rfl | ⟨digits, rfl, -⟩
  · exact ⟨List.append_nil whole, rfl⟩
  · exact ⟨List.append_nil whole, rfl⟩

theorem minus_not_mem_head? (rest : List Char) : '-' ∉ (whole ++ rest).head? := by
  obtain ⟨digit, others, rfl⟩ := List.exists_cons_of_ne_nil h.whole_isDigits.1
  intro hhead
  cases hhead
  exact absurd (h.whole_isDigits.2 '-' List.mem_cons_self) (by decide)

theorem group_eq : group text = signed negative (withCommas whole ++ fraction) := by
  obtain ⟨htake, hdrop⟩ := h.takeWhile_point
  have hunsigned : groupUnsigned (whole ++ fraction) = withCommas whole ++ fraction := by
    rw [groupUnsigned, htake, hdrop, groupDigits_eq]
  rw [h.text_eq]
  cases negative with
  | true => exact congrArg (List.cons '-') hunsigned
  | false =>
    obtain ⟨digit, rest, rfl⟩ := List.exists_cons_of_ne_nil h.whole_isDigits.1
    have hsign : digit ≠ '-' := ne_of_isDigit (h.whole_isDigits.2 digit List.mem_cons_self) rfl
    rw [← hunsigned]
    simp only [signed, Bool.false_eq_true, ↓reduceIte, List.cons_append]
    unfold group
    split
    · rename_i heq
      exact absurd (List.cons.inj heq).1 hsign
    · rfl

theorem filter_group : (group text).filter (· ≠ ',') = text := by
  have hwhole : (withCommas whole).filter (· ≠ ',') = whole := by
    rw [← groupDigits_eq]
    exact filter_groupDigits whole fun c hc => ne_of_isDigit (h.whole_isDigits.2 c hc) rfl
  have hfraction : fraction.filter (· ≠ ',') = fraction := by
    rw [List.filter_eq_self]
    intro c hc
    rcases h.fraction_cases with rfl | ⟨digits, rfl, hdigits⟩
    · cases hc
    · rcases List.mem_cons.1 hc with rfl | hdigit
      · rfl
      · exact decide_eq_true (ne_of_isDigit (hdigits c hdigit) rfl)
  have happend : (withCommas whole ++ fraction).filter (· ≠ ',') = whole ++ fraction := by
    rw [List.filter_append, hwhole, hfraction]
  rw [h.group_eq, h.text_eq]
  cases negative with
  | true => exact congrArg (List.cons '-') happend
  | false => exact happend

theorem filter_eq : text.filter (· ≠ ',') = text := by
  conv_lhs => rw [← h.filter_group, List.filter_filter]
  simp only [Bool.and_self]
  exact h.filter_group

theorem length_group : (group text).length = text.length + (whole.length - 1) / 3 := by
  rw [h.group_eq, h.text_eq, ← groupDigits_eq]
  cases negative <;>
    simp only [signed, ↓reduceIte, Bool.false_eq_true, List.length_cons, List.length_append,
      length_groupDigits] <;> omega

/-- A text with at most 309 digits before the point and 99 behind it fits before and after
grouping. -/
theorem fits (hwhole : whole.length ≤ 309) (hfraction : fraction.length ≤ 1 + 99) :
    text.length ≤ Floating.scratchSize ∧ (group text).length ≤ Floating.scratchSize := by
  have htext : text.length ≤ 1 + (whole.length + fraction.length) := by
    rw [h.text_eq]
    cases negative <;> simp only [signed, ↓reduceIte, Bool.false_eq_true, List.length_cons,
      List.length_append] <;> omega
  rw [h.length_group, Floating.scratchSize]
  omega

end IsPlain

/-! ## Integers -/

theorem isPlain_integer (n : Int) : IsPlain (n < 0) (decimal n.natAbs) [] (integer n) :=
  ⟨by rw [List.append_nil]; rfl, isDigits_decimal _, .inl rfl⟩

theorem length_integer_le {n : Int} (hlow : -(Nat.pow 2 127 : Nat) ≤ n) (hhigh : n < Nat.pow 2 128) :
    (integer n).length ≤ integerScratchSize := by
  have hlt : n.natAbs < 10 ^ 39 := by
    simp only [Nat.pow_eq] at hlow hhigh
    norm_num at hlow hhigh ⊢
    omega
  have hdigits : (decimal n.natAbs).length ≤ 39 :=
    (Nat.length_toDigits_le_iff (by decide) (by decide)).2 hlt
  have hsign : (integer n).length ≤ 1 + (decimal n.natAbs).length := by
    rw [integer, signed]
    split
    · rw [List.length_cons]
      omega
    · omega
  rw [integerScratchSize]
  omega

theorem value_bounds (kind : IntegerKind) (bits : BitVec kind.width) :
    -(Nat.pow 2 127 : Nat) ≤ kind.value bits ∧ kind.value bits < Nat.pow 2 128 := by
  have hwidth : kind.width ≤ 128 := by cases kind <;> decide
  have hpow : 2 ^ kind.width ≤ 2 ^ 128 := Nat.pow_le_pow_right (by decide) hwidth
  have hpow' : (2 : Int) ^ kind.width ≤ 2 ^ 128 := by exact_mod_cast hpow
  have hlt := Nat.lt_of_lt_of_le bits.isLt hpow
  have hlow := bits.le_two_mul_toInt
  have hhigh := bits.two_mul_toInt_lt
  rw [IntegerKind.value]
  simp only [Nat.pow_eq]
  split <;> omega

/-! ## Floating-point numbers -/

theorem roundDiv_le (tie : Tie) (num den : Nat) : roundDiv tie num den ≤ num / den + 1 := by
  unfold roundDiv
  simp only
  split
  · omega
  · split
    · omega
    · cases tie
      · have hbit := Nat.mod_lt (num / den) (by decide : 0 < 2)
        simp only
        omega
      · simp only
        omega

theorem isPlain_pointed_digits (negative : Bool) (places n : Nat) :
    ∃ whole fraction, IsPlain negative whole fraction (signed negative (pointed places n)) ∧
      whole ++ fraction.tail = zeroPad (places + 1) (decimal n) ∧ fraction.tail.length = places ∧
      (places = 0 → fraction = []) := by
  have hdigits := isDigits_zeroPad (isDigits_decimal n) (places + 1)
  have hlength := length_zeroPad (places + 1) (decimal n)
  rw [pointed]
  generalize zeroPad (places + 1) (decimal n) = digits at hdigits hlength
  by_cases hplaces : places = 0
  · refine ⟨digits, [], ⟨?_, hdigits, .inl rfl⟩, List.append_nil _, hplaces.symm, fun _ => rfl⟩
    simp only [hplaces, ↓reduceIte, List.append_nil]
  · refine ⟨digits.take (digits.length - places), '.' :: digits.drop (digits.length - places),
      ⟨?_, ⟨?_, fun c hc => hdigits.2 c (List.mem_of_mem_take hc)⟩, .inr ⟨_, rfl, fun c hc =>
        hdigits.2 c (List.mem_of_mem_drop hc)⟩⟩, List.take_append_drop _ _, ?_,
      fun hzero => absurd hzero hplaces⟩
    · simp only [hplaces, ↓reduceIte]
    · apply List.ne_nil_of_length_pos
      rw [List.length_take]
      omega
    · rw [List.tail_cons, List.length_drop]
      omega

theorem isPlain_pointed (negative : Bool) (places n : Nat) :
    ∃ whole fraction, IsPlain negative whole fraction (signed negative (pointed places n)) ∧
      whole.length = max 1 ((decimal n).length - places) ∧ fraction.length ≤ 1 + places := by
  obtain ⟨whole, fraction, hplain, hdigits, hfraction, -⟩ := isPlain_pointed_digits negative places n
  have hpos : 0 < (decimal n).length := List.length_pos_iff.2 (decimal_ne_nil n)
  have hlength := congrArg List.length hdigits
  rw [List.length_append, hfraction, length_zeroPad] at hlength
  rw [List.length_tail] at hfraction
  exact ⟨whole, fraction, hplain, by omega, by omega⟩

namespace Floating

/-- The numbers of both formats are below the first that sixty-four bits cannot hold. -/
theorem finite_bounds {f : BinaryFormat} (hf : f = binary32 ∨ f = binary64) {bits : Nat}
    {negative : Bool} {significand : Nat} {exponent : Int}
    (h : ofBits f bits = .finite negative significand exponent) :
    significand < 2 ^ 53 ∧ exponent ≤ 971 := by
  have hfraction : bits % Nat.pow 2 f.fractionBits < Nat.pow 2 f.fractionBits :=
    Nat.mod_lt _ (Nat.two_pow_pos _)
  have hexponent : bits / Nat.pow 2 f.fractionBits % Nat.pow 2 f.exponentBits <
      Nat.pow 2 f.exponentBits := Nat.mod_lt _ (Nat.two_pow_pos _)
  rw [ofBits] at h
  generalize bits % Nat.pow 2 f.fractionBits = fraction at h hfraction
  generalize bits / Nat.pow 2 f.fractionBits % Nat.pow 2 f.exponentBits = power at h hexponent
  have hformat : Nat.pow 2 f.fractionBits ≤ 2 ^ 52 ∧
      f.leastExponent + (Nat.pow 2 f.exponentBits : Nat) ≤ 974 ∧ f.leastExponent ≤ 971 := by
    rcases hf with rfl | rfl <;> decide
  split at h
  · split at h <;> cases h
  · split at h
    · cases h
      omega
    · cases h
      omega

theorem num_ratio_lt {significand width : Nat} {exponent : Int} (limit : Nat)
    (hsignificand : significand < 2 ^ width) (hexponent : exponent ≤ limit) :
    (ratio significand exponent).1 < 2 ^ (width + limit) := by
  have hpow : (2 : Nat) ^ exponent.toNat ≤ 2 ^ limit :=
    Nat.pow_le_pow_right (by decide) (by omega)
  rw [Nat.pow_add]
  exact Nat.mul_lt_mul_of_lt_of_le hsignificand hpow (Nat.two_pow_pos limit)

theorem roundDiv_lt {num limit digits : Nat} (hnum : num < limit) (hlimit : limit < 10 ^ digits)
    (tie : Tie) (places den : Nat) :
    roundDiv tie (num * Nat.pow 10 places) den < 10 ^ (digits + places) := by
  have hpos : 0 < 10 ^ places := Nat.pow_pos (by decide)
  calc roundDiv tie (num * 10 ^ places) den ≤ num * 10 ^ places / den + 1 := roundDiv_le _ _ _
    _ ≤ num * 10 ^ places + 10 ^ places := Nat.add_le_add (Nat.div_le_self _ _) hpos
    _ = (num + 1) * 10 ^ places := (Nat.succ_mul _ _).symm
    _ ≤ limit * 10 ^ places := Nat.mul_le_mul_right _ hnum
    _ < 10 ^ digits * 10 ^ places := Nat.mul_lt_mul_of_pos_right hlimit hpos
    _ = 10 ^ (digits + places) := (Nat.pow_add _ _ _).symm

theorem length_rounded_le {significand : Nat} {exponent : Int} (hsignificand : significand < 2 ^ 53)
    (hexponent : exponent ≤ 971) (places : Nat) :
    (decimal (roundDiv .even ((ratio significand exponent).1 * Nat.pow 10 places)
      (ratio significand exponent).2)).length ≤ 309 + places := by
  have hlimit : 2 ^ (53 + 971) < 10 ^ 309 := by decide +kernel
  have hlt := roundDiv_lt (num_ratio_lt 971 hsignificand hexponent) hlimit .even places
    (ratio significand exponent).2
  exact (Nat.length_toDigits_le_iff (by decide) (by omega)).2 hlt

/-- A finite number has at most 309 digits before the point. -/
theorem isPlain_fixed {f : BinaryFormat} (hf : f = binary32 ∨ f = binary64) {bits : Nat}
    (hfinite : (ofBits f bits).isFinite = true) {places : Nat} (hplaces : places ≤ 99) :
    ∃ negative whole fraction, IsPlain negative whole fraction ((ofBits f bits).fixed places) ∧
      whole.length ≤ 309 ∧ fraction.length ≤ 1 + 99 := by
  cases hx : ofBits f bits with
  | nan =>
    rw [hx] at hfinite
    cases hfinite
  | infinite negative =>
    rw [hx] at hfinite
    cases hfinite
  | finite negative significand exponent =>
    obtain ⟨hsignificand, hexponent⟩ := finite_bounds hf hx
    have hrounded := length_rounded_le hsignificand hexponent places
    obtain ⟨whole, fraction, hplain, hwhole, hfraction⟩ := isPlain_pointed negative places
      (roundDiv .even ((ratio significand exponent).1 * Nat.pow 10 places)
        (ratio significand exponent).2)
    exact ⟨negative, whole, fraction, hplain, by omega, by omega⟩

theorem grouped_eq {f : BinaryFormat} (hf : f = binary32 ∨ f = binary64) {bits : Nat}
    (hfinite : (ofBits f bits).isFinite = true) {places : Nat} (hplaces : places ≤ 99) :
    (ofBits f bits).grouped places = group ((ofBits f bits).fixed places) := by
  obtain ⟨negative, whole, fraction, hplain, hwhole, hfraction⟩ := isPlain_fixed hf hfinite hplaces
  exact if_pos (hplain.fits hwhole hfraction)

end Floating

/-! ## Whatever is to be grouped -/

theorem groupedInteger_eq {n : Int} (h : (integer n).length ≤ integerScratchSize) :
    groupedInteger n = group (integer n) := if_pos h

theorem integerSpecified_of_n {s : Specifier} (h : s.letter = 'N' ∨ s.letter = 'n') (width : Nat)
    (n : Int) : integerSpecified width n s = groupedInteger n ++ zeroFraction (s.places 2) := by
  rw [integerSpecified]
  rcases h with h | h <;> simp only [h]

theorem Floating.specified_of_n {s : Specifier} (h : s.letter = 'N' ∨ s.letter = 'n')
    (x : Floating) : x.specified s = x.grouped (s.places 2) := by
  rw [specified]
  rcases h with h | h <;> simp only [h]

/-- A plain text is grouped with a comma before each digit of its integral part that is not the first
and has a multiple of three digits from it to the end, and with no others. Under `N` every integer
and every finite number is grouped, as none is too long to be worked on. -/
theorem group_exact_and_fits :
    (∀ (negative : Bool) (whole fraction text : List Char),
      IsPlain negative whole fraction text →
        group text = signed negative (withCommas whole ++ fraction) ∧
          (group text).filter (· ≠ ',') = text ∧
          (group text).length = text.length + (whole.length - 1) / 3 ∧
          (whole.length ≤ 309 → fraction.length ≤ 1 + 99 →
            text.length ≤ Floating.scratchSize ∧ (group text).length ≤ Floating.scratchSize)) ∧
    (∀ n : Int, -(Nat.pow 2 127 : Nat) ≤ n → n < Nat.pow 2 128 →
      (integer n).length ≤ integerScratchSize ∧ groupedInteger n = group (integer n)) ∧
    ∀ (format : String) (s : Specifier), Specifier.parse? format = some s →
      s.letter = 'N' ∨ s.letter = 'n' →
        (∀ (kind : IntegerKind) (bits : BitVec kind.width),
          integerFormat kind.width (kind.value bits) (some format) =
            group (integer (kind.value bits)) ++ zeroFraction (s.places 2)) ∧
        ∀ f : BinaryFormat, f = binary32 ∨ f = binary64 → ∀ bits : Nat,
          let x := Floating.ofBits f bits
          x.isFinite = true →
            (∃ negative whole fraction, IsPlain negative whole fraction (x.fixed (s.places 2)) ∧
              whole.length ≤ 309 ∧ fraction.length ≤ 1 + 99) ∧
            x.format f (some format) = group (x.fixed (s.places 2)) := by
  refine ⟨fun negative whole fraction text h => ?_, fun n hlow hhigh => ?_,
    fun format s hparse hletter => ⟨fun kind bits => ?_, ?_⟩⟩
  · exact ⟨h.group_eq, h.filter_group, h.length_group, h.fits⟩
  · have hfits := length_integer_le hlow hhigh
    exact ⟨hfits, groupedInteger_eq hfits⟩
  · obtain ⟨hlow, hhigh⟩ := value_bounds kind bits
    rw [integerFormat, Option.bind_some, hparse]
    simp only
    rw [integerSpecified_of_n hletter, groupedInteger_eq (length_integer_le hlow hhigh)]
  · intro f hf bits x hfinite
    have hplaces := Specifier.places_le hparse 2 (by decide)
    refine ⟨Floating.isPlain_fixed hf hfinite hplaces, ?_⟩
    rw [Floating.format, Option.bind_some, hparse]
    simp only
    rw [if_pos hfinite, Floating.specified_of_n hletter, Floating.grouped_eq hf hfinite hplaces]

/-- The longest text with all its commas fills the space that there is. The least integer of 128 bits
and the least finite number are grouped. -/
theorem group_exact_and_fits_longest :
    let text := signed true (List.replicate 309 '9' ++ '.' :: List.replicate 99 '0')
    let least := Floating.ofBits binary64 0xFFEF_FFFF_FFFF_FFFF
    (group text).length = Floating.scratchSize ∧ (group text).filter (· ≠ ',') = text ∧
      groupedInteger (-0x80000000_00000000_00000000_00000000) =
        "-170,141,183,460,469,231,731,687,303,715,884,105,728".toList ∧
      integerFormat 8 (-128) (some "n0") = "-128".toList ∧
      least.format binary64 (some "N99") = group (least.fixed 99) := by
  intro text least
  obtain ⟨htexts, hintegers, hformats⟩ := group_exact_and_fits
  have hplain : IsPlain true (List.replicate 309 '9') ('.' :: List.replicate 99 '0') text := by
    refine ⟨rfl, ⟨nofun, fun c hc => ?_⟩, .inr ⟨_, rfl, fun c hc => ?_⟩⟩ <;>
      rw [List.eq_of_mem_replicate hc] <;> rfl
  obtain ⟨-, hfilter, hlength, -⟩ := htexts _ _ _ _ hplain
  have htext : text.length = 410 := by
    simp only [text, signed, ↓reduceIte, List.length_cons, List.length_append,
      List.length_replicate]
  refine ⟨?_, hfilter, ?_, ?_, ?_⟩
  · rw [hlength, htext, List.length_replicate]
    rfl
  · rw [(hintegers _ (by decide) (by decide)).2]
    decide
  · exact ((hformats "n0" ⟨'n', some 0⟩ (by decide) (.inr rfl)).1 .int8 (-128)).trans (by decide)
  · exact ((hformats "N99" ⟨'N', some 99⟩ (by decide) (.inl rfl)).2 binary64 (.inr rfl)
      0xFFEF_FFFF_FFFF_FFFF (by decide)).2

end Logbook.Number
