import Logbook.Proofs.Number.Integers
import Mathlib.Algebra.Order.Floor.Semifield
import Mathlib.Data.Rat.Floor
import Mathlib.Tactic.FieldSimp
import Mathlib.Tactic.Linarith
import Mathlib.Tactic.Positivity
set_option autoImplicit false

/-!
# Decimals under formats

A number has one multiple of a tenth, a hundredth and so on that is nearest to it, if of two equally
near the one further from zero counts. `Arithmetic.Lawful` says what is taken for granted of rounding,
of writing with a number of digits and of multiplying by a hundred. With any such arithmetic a format
shows this multiple with all its digits, and without a format for digits a decimal is shown as it is.
-/
namespace Logbook.Number

/-! ## Nearest multiples -/

/-- The integer nearest to `x`; of two equally near, the one further from zero. -/
def IsNearest (x : ℚ) (m : ℤ) : Prop :=
  |x - m| ≤ 1 / 2 ∧ (|x - m| = 1 / 2 → |x| < |(m : ℚ)|)

def IsRounded (places : Nat) (x y : ℚ) : Prop :=
  ∃ m : ℤ, IsNearest (x * 10 ^ places) m ∧ y = m / 10 ^ places

namespace IsNearest

variable {x : ℚ} {m n : ℤ}

theorem neg (h : IsNearest x m) : IsNearest (-x) (-m) := by
  have habs : |(-x) - ((-m : ℤ) : ℚ)| = |x - m| := by
    rw [← abs_neg]
    congr 1
    push_cast
    ring
  rw [IsNearest, habs, abs_neg, Int.cast_neg, abs_neg]
  exact h

theorem not_lt (hm : IsNearest x m) (hn : IsNearest x n) : ¬m < n := by
  intro hlt
  have hsucc : (m : ℚ) + 1 ≤ n := by exact_mod_cast hlt
  obtain ⟨hlow, hhigh⟩ := abs_le.1 hm.1
  obtain ⟨hlow', hhigh'⟩ := abs_le.1 hn.1
  -- `x` lies halfway between the two, and cannot be nearer to zero than both
  have hx : x = m + 1 / 2 := by linarith
  have hn' : (n : ℚ) = m + 1 := by linarith
  have hbelow := hm.2 (by rw [hx, add_sub_cancel_left]; norm_num)
  have habove := hn.2 (by rw [hx, hn', abs_eq (by norm_num)]; right; ring)
  rw [← sq_lt_sq, hx] at hbelow habove
  rw [hn'] at habove
  have hneg : (m : ℚ) < 0 := by nlinarith
  have hneg' : (-1 : ℚ) < m := by nlinarith
  have h1 : m < 0 := by exact_mod_cast hneg
  have h2 : -1 < m := by exact_mod_cast hneg'
  omega

theorem unique (hm : IsNearest x m) (hn : IsNearest x n) : m = n :=
  le_antisymm (le_of_not_gt (hn.not_lt hm)) (le_of_not_gt (hm.not_lt hn))

end IsNearest

theorem isNearest_floor {x : ℚ} (hx : 0 ≤ x) : IsNearest x ⌊x + 1 / 2⌋ := by
  have hle := Int.floor_le (x + 1 / 2)
  have hlt := Int.lt_floor_add_one (x + 1 / 2)
  refine ⟨abs_le.2 ⟨by linarith, by linarith⟩, fun htie => ?_⟩
  have hgt : x < (⌊x + 1 / 2⌋ : ℚ) := by
    rcases (abs_eq (by norm_num)).1 htie with h | h
    · linarith
    · linarith
  rw [abs_of_nonneg hx, abs_of_nonneg (hx.trans hgt.le)]
  exact hgt

theorem exists_isNearest (x : ℚ) : ∃ m, IsNearest x m := by
  rcases le_total 0 x with hx | hx
  · exact ⟨_, isNearest_floor hx⟩
  · have hneg := (isNearest_floor (neg_nonneg.2 hx)).neg
    rw [neg_neg] at hneg
    exact ⟨_, hneg⟩

namespace IsRounded

variable {places : Nat} {x y z : ℚ}

theorem neg (h : IsRounded places x y) : IsRounded places (-x) (-y) := by
  obtain ⟨m, hnearest, rfl⟩ := h
  refine ⟨-m, ?_, ?_⟩
  · rw [neg_mul]
    exact hnearest.neg
  · push_cast
    ring

theorem unique (hy : IsRounded places x y) (hz : IsRounded places x z) : y = z := by
  obtain ⟨m, hm, rfl⟩ := hy
  obtain ⟨n, hn, rfl⟩ := hz
  rw [hm.unique hn]

end IsRounded

theorem existsUnique_isRounded (places : Nat) (x : ℚ) : ∃! y, IsRounded places x y := by
  obtain ⟨m, hm⟩ := exists_isNearest (x * 10 ^ places)
  exact ⟨_, ⟨m, hm, rfl⟩, fun z hz => hz.unique ⟨m, hm, rfl⟩⟩

theorem lt_roundDiv_away (num : Nat) {den : Nat} (h : 0 < den) :
    2 * num < 2 * (roundDiv .away num den * den) + den := by
  have hdiv := Nat.div_add_mod' num den
  have hmod := Nat.mod_lt num h
  have hsucc : (num / den + 1) * den = num / den * den + den := Nat.succ_mul _ _
  unfold roundDiv
  simp only
  split
  · omega
  · split <;> omega

theorem isNearest_roundDiv (num : Nat) {den : Nat} (h : 0 < den) :
    IsNearest ((num : ℚ) / den) (roundDiv .away num den) := by
  have hden : (0 : ℚ) < den := by exact_mod_cast h
  have hlow : (2 * (roundDiv .away num den * den) : ℚ) ≤ 2 * num + den := by
    exact_mod_cast (roundDiv_close .away num den h).2
  have hhigh : (2 * num : ℚ) < 2 * (roundDiv .away num den * den) + den := by
    exact_mod_cast lt_roundDiv_away num h
  have hcast : ((roundDiv .away num den : ℤ) : ℚ) = roundDiv .away num den := Int.cast_natCast _
  rw [IsNearest, hcast]
  generalize (roundDiv .away num den : ℚ) = rounded at hlow hhigh
  have hx : (0 : ℚ) ≤ num / den := by positivity
  have hnum : (num : ℚ) / den * den = num := div_mul_cancel₀ _ hden.ne'
  generalize (num : ℚ) / den = x at hx hnum
  rw [← hnum] at hlow hhigh
  have hbelow : rounded ≤ x + 1 / 2 := by nlinarith
  have habove : x < rounded + 1 / 2 := by nlinarith
  refine ⟨abs_le.2 ⟨by linarith, by linarith⟩, fun htie => ?_⟩
  rcases (abs_eq (by norm_num)).1 htie with heq | heq
  · linarith
  · rw [abs_of_nonneg hx, abs_of_nonneg (by linarith)]
    linarith

/-! ## Reading texts -/

def sign (negative : Bool) : ℚ := if negative then -1 else 1

theorem isRounded_sign {places : Nat} {x : ℚ} {m : ℤ} (h : IsNearest (x * 10 ^ places) m)
    (negative : Bool) : IsRounded places (sign negative * x) (sign negative * m / 10 ^ places) := by
  have hrounded : IsRounded places x (m / 10 ^ places) := ⟨m, h, rfl⟩
  cases negative with
  | true =>
    have hneg := hrounded.neg
    simp only [sign, ↓reduceIte, neg_mul, one_mul, neg_div]
    exact hneg
  | false =>
    simp only [sign, Bool.false_eq_true, ↓reduceIte, one_mul]
    exact hrounded

def fractionDigits (text : List Char) : List Char := (text.dropWhile (· ≠ '.')).tail

def readDecimal? (text : List Char) : Option ℚ :=
  let digits := text.takeWhile (· ≠ '.') ++ fractionDigits text
  (readSigned? (readNumeral? decimalDigits) digits).map fun n : ℤ =>
    (n : ℚ) / 10 ^ (fractionDigits text).length

def HasPlaces (places : Nat) (text : List Char) : Prop :=
  if places = 0 then '.' ∉ text
  else ∃ whole digits, text = whole ++ '.' :: digits ∧ '.' ∉ whole ∧ digits.length = places ∧
    ∀ c ∈ digits, c.isDigit = true

theorem point_not_mem {cs : List Char} (h : ∀ c ∈ cs, c.isDigit = true) : '.' ∉ cs := fun hmem =>
  absurd (h '.' hmem) (by decide)

theorem point_not_mem_signed {cs : List Char} (h : '.' ∉ cs) (negative : Bool) :
    '.' ∉ signed negative cs := by
  cases negative with
  | true => simpa [signed] using h
  | false => exact h

namespace IsPlain

variable {negative : Bool} {whole fraction text : List Char} (h : IsPlain negative whole fraction text)
include h

theorem split_point :
    text.takeWhile (· ≠ '.') = signed negative whole ∧ text.dropWhile (· ≠ '.') = fraction := by
  obtain ⟨htake, hdrop⟩ := h.takeWhile_point
  rw [h.text_eq]
  cases negative with
  | true => exact ⟨congrArg (List.cons '-') htake, hdrop⟩
  | false => exact ⟨htake, hdrop⟩

theorem readDecimal?_eq {n : Nat}
    (hread : readNumeral? decimalDigits (whole ++ fraction.tail) = some n) :
    readDecimal? text = some (sign negative * n / 10 ^ fraction.tail.length) := by
  obtain ⟨htake, hdrop⟩ := h.split_point
  have hsign := h.minus_not_mem_head? fraction.tail
  rw [readDecimal?, fractionDigits, htake, hdrop, ← signed_append, readSigned?_signed hread hsign,
    Option.map_some, sign]
  cases negative <;> simp

theorem hasPlaces (hnone : fraction.tail.length = 0 → fraction = []) :
    HasPlaces fraction.tail.length text ∧ HasPlaces fraction.tail.length (group text) := by
  have hwhole := point_not_mem h.whole_isDigits.2
  have hcommas : '.' ∉ withCommas whole := by
    intro hmem
    have hfilter : '.' ∈ (withCommas whole).filter (· ≠ ',') := List.mem_filter.2 ⟨hmem, rfl⟩
    rw [← groupDigits_eq, filter_groupDigits whole fun c hc =>
      ne_of_isDigit (h.whole_isDigits.2 c hc) rfl] at hfilter
    exact hwhole hfilter
  have hplaces : ∀ before, '.' ∉ before →
      HasPlaces fraction.tail.length (signed negative (before ++ fraction)) := by
    intro before hbefore
    rw [HasPlaces]
    split
    · rename_i hzero
      rw [hnone hzero, List.append_nil]
      exact point_not_mem_signed hbefore negative
    · rename_i hpos
      rcases h.fraction_cases with rfl | ⟨digits, rfl, hdigits⟩
      · exact absurd rfl hpos
      · exact ⟨signed negative before, digits, signed_append _ _ _,
          point_not_mem_signed hbefore negative, rfl, hdigits⟩
  rw [h.group_eq, h.text_eq]
  exact ⟨hplaces whole hwhole, hplaces _ hcommas⟩

end IsPlain

theorem readDecimal?_pointed (negative : Bool) (places n : Nat) :
    let text := signed negative (pointed places n)
    readDecimal? text = some (sign negative * n / 10 ^ places) ∧ HasPlaces places text ∧
      HasPlaces places (group text) ∧ (group text).filter (· ≠ ',') = text := by
  obtain ⟨whole, fraction, hplain, hdigits, hlength, hnone⟩ :=
    isPlain_pointed_digits negative places n
  have hread : readNumeral? decimalDigits (whole ++ fraction.tail) = some n := by
    rw [hdigits]
    exact (isNumeral_decimal (places + 1) n).readNumeral?_eq
  have hvalue := hplain.readDecimal?_eq hread
  have hplaces := hplain.hasPlaces (by rw [hlength]; exact hnone)
  rw [hlength] at hvalue hplaces
  exact ⟨hvalue, hplaces.1, hplaces.2, hplain.filter_group⟩

/-! ## Lengths -/

namespace Decimal96

def Rounded.value (r : Rounded) : ℚ := sign r.negative * r.coefficient / 10 ^ r.scale

def value (d : Decimal96) : ℚ := d.exact.value

/-- The integral digits, the point and as many fraction digits as a decimal can have take at most
thirty-two characters. -/
def Fits (places : Nat) (x : ℚ) : Prop := (decimal ⌊|x|⌋₊).length + 1 + min places maxScale ≤ 32

/-- What is taken for granted of the arithmetic. -/
structure Arithmetic.Lawful (a : Arithmetic) : Prop where
  round_value : ∀ places r, IsRounded places r.value (a.round places r).value
  fixed_eq : ∀ places r, Fits places r.value →
    a.fixed places r = signed r.negative (pointed places ⌊|r.value| * 10 ^ places⌋₊)
  plain_eq : ∀ d, a.plain d = a.fixed d.scale d.exact
  percent?_value : ∀ d p, a.percent? d = some p → p.value = 100 * d.value

theorem abs_sign (negative : Bool) : |sign negative| = 1 := by
  cases negative <;> simp [sign]

theorem Rounded.abs_value (r : Rounded) : |r.value| = r.coefficient / 10 ^ r.scale := by
  rw [value, abs_div, abs_mul, abs_sign, one_mul, Nat.abs_cast, abs_of_pos (by positivity)]

theorem Rounded.floor_abs_value (r : Rounded) :
    ⌊|r.value|⌋₊ = r.coefficient / 10 ^ r.scale := by
  have hcast : |r.value| = r.coefficient / (10 ^ r.scale : Nat) := by
    rw [Rounded.abs_value]
    push_cast
    rfl
  rw [hcast, Nat.floor_div_natCast, Nat.floor_natCast]

theorem Rounded.value_eq (r : Rounded) : r.value = sign r.negative * |r.value| := by
  rw [r.abs_value, value, mul_div_assoc]

/-! ### The standard arithmetic -/

theorem div_pow_mul_pow_of_le (coefficient : Nat) {places scale : Nat} (h : places ≤ scale) :
    (coefficient : ℚ) / 10 ^ scale * 10 ^ places =
      coefficient / (Nat.pow 10 (scale - places) : Nat) := by
  have hpow : (10 : ℚ) ^ scale = 10 ^ (scale - places) * 10 ^ places := by
    rw [← pow_add, Nat.sub_add_cancel h]
  rw [Nat.pow_eq, Nat.cast_pow, Nat.cast_ofNat, hpow]
  field_simp

theorem div_pow_mul_pow_of_ge (coefficient : Nat) {places scale : Nat} (h : scale ≤ places) :
    (coefficient : ℚ) / 10 ^ scale * 10 ^ places =
      (coefficient * Nat.pow 10 (places - scale) : Nat) := by
  have hpow : (10 : ℚ) ^ places = 10 ^ (places - scale) * 10 ^ scale := by
    rw [← pow_add, Nat.sub_add_cancel h]
  rw [Nat.pow_eq, Nat.cast_mul, Nat.cast_pow, Nat.cast_ofNat, hpow]
  field_simp

theorem Rounded.fixedDigits_eq (places : Nat) (r : Rounded) :
    r.fixedDigits places = pointed places ⌊|r.value| * 10 ^ places⌋₊ := by
  rw [fixedDigits, r.abs_value]
  split
  · rename_i hle
    rw [div_pow_mul_pow_of_le _ hle, Nat.floor_div_natCast, Nat.floor_natCast]
  · rename_i hlt
    rw [div_pow_mul_pow_of_ge _ (by omega), Nat.floor_natCast]

theorem Rounded.fixed_eq (places : Nat) (r : Rounded) :
    r.fixed places = signed r.negative (pointed places ⌊|r.value| * 10 ^ places⌋₊) := by
  rw [fixed, r.fixedDigits_eq]

theorem Rounded.isRounded_of_isNearest {places : Nat} {r : Rounded} {m : ℤ} {y : ℚ}
    (h : IsNearest ((r.coefficient : ℚ) / 10 ^ r.scale * 10 ^ places) m)
    (hy : y = sign r.negative * m / 10 ^ places) : IsRounded places r.value y := by
  have hrounded := isRounded_sign h r.negative
  rw [← mul_div_assoc, ← hy] at hrounded
  exact hrounded

theorem isNearest_intCast (m : ℤ) : IsNearest m m := by
  rw [IsNearest, sub_self, abs_zero]
  norm_num

theorem Rounded.round_value (places : Nat) (r : Rounded) :
    IsRounded places r.value (r.round places).value := by
  rw [round]
  split
  · rename_i hzero
    refine isRounded_of_isNearest (m := 0) ?_ ?_
    · rw [hzero, Nat.cast_zero, zero_div, zero_mul]
      exact isNearest_intCast 0
    · simp only [value, Nat.cast_zero, Int.cast_zero]
  split
  · -- the number has no more places, so it is a multiple already
    rename_i hle
    have hexact := div_pow_mul_pow_of_ge r.coefficient hle
    refine isRounded_of_isNearest (m := (r.coefficient * Nat.pow 10 (places - r.scale) : Nat)) ?_ ?_
    · rw [hexact]
      exact isNearest_intCast _
    · rw [Int.cast_natCast, ← hexact, value]
      field_simp
  · rename_i hlt
    have hpos : 0 < Nat.pow 10 (r.scale - places) := Nat.pow_pos (by decide)
    refine isRounded_of_isNearest
      (m := roundDiv .away r.coefficient (Nat.pow 10 (r.scale - places))) ?_ ?_
    · rw [div_pow_mul_pow_of_le _ (by omega)]
      exact isNearest_roundDiv r.coefficient hpos
    · -- zero has no sign, and is the same with one
      simp only [value, Int.cast_natCast]
      generalize roundDiv .away r.coefficient (Nat.pow 10 (r.scale - places)) = rounded
      by_cases hzero : rounded = 0
      · simp [hzero]
      · simp [hzero]

theorem percent?_value {d : Decimal96} {p : Rounded} (h : d.percent? = some p) :
    p.value = 100 * d.value := by
  have hshift : ∀ {dropped : Nat}, dropped ≤ d.scale →
      (10 : ℚ) ^ d.scale = 10 ^ (d.scale - dropped) * 10 ^ dropped := by
    intro dropped hle
    rw [← pow_add, Nat.sub_add_cancel hle]
  rw [percent?] at h
  rw [Decimal96.value, exact, Rounded.value]
  split at h
  · rename_i hzero
    cases h
    simp [Rounded.value, hzero]
  split at h
  · cases h
    rw [Rounded.value]
    push_cast
    ring
  split at h
  · split at h
    · rename_i hone
      cases h
      rw [Rounded.value, hshift hone]
      push_cast
      field_simp
      ring
    · cases h
  · split at h
    · rename_i htwo
      cases h
      rw [Rounded.value, hshift htwo]
      field_simp
      ring
    · cases h

theorem Arithmetic.lawful_standard : standard.Lawful where
  round_value := Rounded.round_value
  fixed_eq places r _ := r.fixed_eq places
  plain_eq _ := rfl
  percent?_value _ _ h := percent?_value h

/-! ### Formats -/

namespace Arithmetic

variable {a : Arithmetic}

def AsksForPlaces (format : Option String) : Prop :=
  ∃ f letter digits, format = some f ∧ Specifier.Spells f letter digits ∧
    letter ∈ ['F', 'f', 'N', 'n', 'P', 'p']

/-- How a decimal is shown under each format. -/
structure Shows (a : Arithmetic) (d : Decimal96) : Prop where
  plain : readDecimal? (a.plain d) = some d.value ∧ HasPlaces d.scale (a.plain d)
  default : ∀ format, ¬AsksForPlaces format → a.format d format = a.plain d
  fixed : ∀ format letter digits, Specifier.Spells format letter digits →
    letter = 'F' ∨ letter = 'f' →
      let places := (Specifier.named digits).getD 2
      let text := a.format d (some format)
      ∀ y, IsRounded places d.value y → Fits places y →
        readDecimal? text = some y ∧ HasPlaces places text
  grouped : ∀ format letter digits, Specifier.Spells format letter digits →
    letter = 'N' ∨ letter = 'n' →
      let places := (Specifier.named digits).getD 2
      let text := a.format d (some format)
      ∀ y, IsRounded places d.value y → Fits places y →
        readDecimal? (text.filter (· ≠ ',')) = some y ∧ HasPlaces places text ∧
          text = group (text.filter (· ≠ ','))
  percent : ∀ format letter digits, Specifier.Spells format letter digits →
    letter = 'P' ∨ letter = 'p' →
      let places := (Specifier.named digits).getD 2
      let text := a.format d (some format)
      (a.percent? d = none → text = a.plain d) ∧
      ((a.percent? d).isSome → ∀ y, IsRounded places (100 * d.value) y → Fits places y →
        ∃ number, text = number ++ " %".toList ∧ readDecimal? number = some y ∧
          HasPlaces places number)

theorem format_of_spells (a : Arithmetic) (d : Decimal96) {format : String} {letter : Char}
    {digits : List Char} (h : Specifier.Spells format letter digits) :
    a.format d (some format) = a.specified d ⟨letter, Specifier.named digits⟩ := by
  rw [Arithmetic.format, Option.bind_some, Specifier.parse?_of_spells h]

theorem specified_of_not_mem (a : Arithmetic) (d : Decimal96) {s : Specifier}
    (h : s.letter ∉ ['F', 'f', 'N', 'n', 'P', 'p']) : a.specified d s = a.plain d := by
  unfold specified
  split
  case h_7 => rfl
  all_goals
    rename_i hletter
    rw [hletter] at h
    exact absurd (by decide) h

theorem format_of_not_asksForPlaces (a : Arithmetic) (d : Decimal96) {format : Option String}
    (h : ¬AsksForPlaces format) : a.format d format = a.plain d := by
  cases format with
  | none => rfl
  | some f =>
    cases hparse : Specifier.parse? f with
    | none => rw [Arithmetic.format, Option.bind_some, hparse]
    | some s =>
      obtain ⟨digits, hspells, -⟩ := Specifier.parse?_eq_some_iff.1 hparse
      rw [Arithmetic.format, Option.bind_some, hparse]
      exact a.specified_of_not_mem d fun hmem => h ⟨f, s.letter, digits, rfl, hspells, hmem⟩

theorem lt_of_fits {places n : Nat} {y : ℚ} (hfits : Fits places y) (hn : |y| * 10 ^ places = n) :
    n < 10 ^ (31 + places) := by
  have hlength : (decimal ⌊|y|⌋₊).length ≤ 31 := by
    rw [Fits] at hfits
    omega
  have hfloor : ⌊|y|⌋₊ < 10 ^ 31 := (Nat.length_toDigits_le_iff (by decide) (by decide)).1 hlength
  have hy : |y| < ((10 ^ 31 : Nat) : ℚ) := (Nat.floor_lt (abs_nonneg y)).1 hfloor
  have hpos : (0 : ℚ) < 10 ^ places := by positivity
  have hlt : |y| * 10 ^ places < ((10 ^ 31 : Nat) : ℚ) * 10 ^ places := mul_lt_mul_of_pos_right hy hpos
  rw [hn] at hlt
  rw [pow_add]
  exact_mod_cast hlt

/-- What is written with a number of places are the digits of the number rounded to them. -/
theorem Lawful.rounded_eq (h : a.Lawful) {places : Nat} {r : Rounded} {y : ℚ}
    (hy : IsRounded places r.value y) (hfits : Fits places y) :
    ∃ negative n, a.rounded places r = signed negative (pointed places n) ∧
      sign negative * n / 10 ^ places = y ∧ n < 10 ^ (31 + places) := by
  obtain rfl := (h.round_value places r).unique hy
  have hfixed := h.fixed_eq places (a.round places r) hfits
  have hvalue := (a.round places r).value_eq
  obtain ⟨m, -, hm⟩ := hy
  have habs : |(a.round places r).value| * 10 ^ places = m.natAbs := by
    rw [hm, abs_div, abs_of_pos (show (0 : ℚ) < 10 ^ places by positivity),
      div_mul_cancel₀ _ (by positivity), Nat.cast_natAbs, Int.cast_abs]
  refine ⟨(a.round places r).negative, m.natAbs, ?_, ?_, lt_of_fits hfits habs⟩
  · rw [rounded, hfixed, habs, Nat.floor_natCast]
  · rw [← habs, ← mul_assoc, mul_div_cancel_right₀ _ (by positivity), ← hvalue]

theorem Lawful.grouped_eq (h : a.Lawful) {places : Nat} {d : Decimal96} {y : ℚ}
    (hy : IsRounded places d.value y) (hfits : Fits places y) (hplaces : places ≤ 99) :
    a.grouped d places = group (a.rounded places d.exact) := by
  obtain ⟨negative, n, htext, -, hn⟩ := h.rounded_eq hy hfits
  obtain ⟨whole, fraction, hplain, hwhole, hfraction⟩ := isPlain_pointed negative places n
  have hlength : (decimal n).length ≤ 31 + places :=
    (Nat.length_toDigits_le_iff (by decide) (by omega)).2 hn
  have hscratch := hplain.fits (by omega) (by omega)
  rw [← htext] at hscratch
  exact if_pos hscratch

theorem fits_scale (d : Decimal96) : Fits d.scale d.value := by
  have hscale := d.scale_le
  have hmax : maxScale = 28 := rfl
  have hfloor : ⌊|d.exact.value|⌋₊ = d.coefficient / 10 ^ d.scale := d.exact.floor_abs_value
  have hlt : d.coefficient / 10 ^ d.scale < 10 ^ (29 - d.scale) := by
    rw [Nat.div_lt_iff_lt_mul (by positivity), ← pow_add, Nat.sub_add_cancel (by omega)]
    exact d.coefficient_lt.trans (by norm_num)
  have hlength : (decimal ⌊|d.exact.value|⌋₊).length ≤ 29 - d.scale := by
    rw [hfloor]
    exact (Nat.length_toDigits_le_iff (by decide) (by omega)).2 hlt
  rw [Fits, Decimal96.value]
  omega

theorem Lawful.plain_eq_pointed (h : a.Lawful) (d : Decimal96) :
    a.plain d = signed d.negative (pointed d.scale d.coefficient) := by
  have habs : |d.exact.value| * 10 ^ d.scale = d.coefficient := by
    rw [Rounded.abs_value, exact]
    field_simp
  rw [h.plain_eq, h.fixed_eq _ _ (fits_scale d), habs, Nat.floor_natCast]
  rfl

theorem Lawful.shows (h : a.Lawful) (d : Decimal96) : a.Shows d where
  plain := by
    obtain ⟨hread, hplaces, -⟩ := readDecimal?_pointed d.negative d.scale d.coefficient
    rw [h.plain_eq_pointed]
    exact ⟨hread, hplaces⟩
  default := fun format hnone => a.format_of_not_asksForPlaces d hnone
  fixed := by
    intro format letter digits hspells hletter places text y hy hfits
    have htext : text = a.rounded places d.exact := by
      rw [show text = _ from a.format_of_spells d hspells]
      rcases hletter with rfl | rfl <;> rfl
    obtain ⟨negative, n, hrounded, hvalue, -⟩ := h.rounded_eq hy hfits
    obtain ⟨hread, hplaces, -⟩ := readDecimal?_pointed negative places n
    rw [htext, hrounded]
    exact ⟨hread.trans (congrArg some hvalue), hplaces⟩
  grouped := by
    intro format letter digits hspells hletter places text y hy hfits
    have hle : places ≤ 99 := Specifier.places_le (Specifier.parse?_of_spells hspells) 2 (by decide)
    have htext : text = group (a.rounded places d.exact) := by
      rw [← h.grouped_eq hy hfits hle, show text = _ from a.format_of_spells d hspells]
      rcases hletter with rfl | rfl <;> rfl
    obtain ⟨negative, n, hrounded, hvalue, -⟩ := h.rounded_eq hy hfits
    obtain ⟨hread, -, hplaces, hfilter⟩ := readDecimal?_pointed negative places n
    rw [htext, hrounded]
    exact ⟨by rw [hfilter, hread, hvalue], hplaces, by rw [hfilter]⟩
  percent := by
    intro format letter digits hspells hletter places text
    have htext : text =
        (a.percent? d).elim (a.plain d) fun r => a.rounded places r ++ " %".toList := by
      rw [show text = _ from a.format_of_spells d hspells]
      rcases hletter with rfl | rfl <;> rw [specified] <;> cases a.percent? d <;> rfl
    cases hpercent : a.percent? d with
    | none =>
      rw [hpercent] at htext
      exact ⟨fun _ => htext, fun hsome => absurd hsome Bool.false_ne_true⟩
    | some r =>
      rw [hpercent] at htext
      refine ⟨fun hnone => absurd hnone (Option.some_ne_none r), fun _ y hy hfits => ?_⟩
      rw [← h.percent?_value d r hpercent] at hy
      obtain ⟨negative, n, hrounded, hvalue, -⟩ := h.rounded_eq hy hfits
      obtain ⟨hread, hplaces, -⟩ := readDecimal?_pointed negative places n
      refine ⟨_, htext, ?_, ?_⟩
      · rw [hrounded, hread, hvalue]
      · rw [hrounded]
        exact hplaces

end Arithmetic

/-! ### Texts that are too long -/

/-- A decimal of which a format asks for more characters than the text is put together in. -/
def Overlong (d : Decimal96) (format : Option String) : Prop :=
  ∃ s r y, format.bind Specifier.parse? = some s ∧ d.scaled? s = some r ∧
    IsRounded (s.places 2) r.value y ∧ ¬Fits (s.places 2) y

end Decimal96
end Logbook.Number
