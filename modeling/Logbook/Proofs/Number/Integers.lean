import Logbook.Proofs.Number.Grouping
import Logbook.Proofs.Number.Numeral
import Logbook.Proofs.Render.Placed
set_option autoImplicit false

/-!
# Integers under formats

`Prescribes` says which text a format string asks for, in terms of numerals and of commas and not of
the functions that write them. It asks for one text, and this is what a record shows. Read back, the
text is the integer again, whatever its width: a format may pad it, group it or show its bits, but
says nothing else.
-/
namespace Logbook.Number

open Record Specifier

def IsDecimal (width : Nat) (n : Int) (text : List Char) : Prop :=
  ∃ digits, IsNumeral decimalDigits width n.natAbs digits ∧ text = signed (n < 0) digits

def meaningfulLetters : List Char := ['D', 'd', 'X', 'x', 'N', 'n', 'F', 'f', 'E', 'e', 'P', 'p']

/-- The text of an integer of `width` bits that a format string asks for. -/
inductive Prescribes (width : Nat) (n : Int) (format : String) : List Char → Prop
  | plain {text : List Char}
      (hletter : ∀ letter digits, Spells format letter digits → letter ∉ meaningfulLetters)
      (htext : IsDecimal 0 n text) : Prescribes width n format text
  | padded {letter : Char} {digits text : List Char} (hspells : Spells format letter digits)
      (hletter : letter = 'D' ∨ letter = 'd')
      (htext : IsDecimal ((named digits).getD 0) n text) : Prescribes width n format text
  | bits (upper : Bool) {digits text : List Char}
      (hspells : Spells format (if upper then 'X' else 'x') digits)
      (htext : IsNumeral (if upper then upperDigits else lowerDigits) ((named digits).getD 0)
        (n % (Nat.pow 2 width : Nat)).toNat text) : Prescribes width n format text
  | grouped {letter : Char} {digits whole : List Char} (hspells : Spells format letter digits)
      (hletter : letter = 'N' ∨ letter = 'n')
      (hwhole : IsNumeral decimalDigits 0 n.natAbs whole) :
      Prescribes width n format
        (signed (n < 0) (withCommas whole) ++ zeroFraction ((named digits).getD 2))
  | fixed {letter : Char} {digits text : List Char} (hspells : Spells format letter digits)
      (hletter : letter = 'F' ∨ letter = 'f') (htext : IsDecimal 0 n text) :
      Prescribes width n format (text ++ zeroFraction ((named digits).getD 2))

/-- An `E` or `P` with or without a precision, which asks for the form of a floating-point number. -/
def AsksForFloating (format : String) : Prop :=
  ∃ letter digits, Spells format letter digits ∧ letter ∈ ['E', 'e', 'P', 'p']

def AsksForBits (format : String) : Prop :=
  ∃ letter digits, Spells format letter digits ∧ letter ∈ ['X', 'x']

/-! ## One text -/

theorem isDecimal_iff {width : Nat} {n : Int} {text : List Char} :
    IsDecimal width n text ↔ text = signed (n < 0) (zeroPad width (decimal n.natAbs)) := by
  constructor
  · rintro ⟨digits, hdigits, rfl⟩
    rw [isNumeral_decimal_iff.1 hdigits]
  · exact fun h => ⟨_, isNumeral_decimal width n.natAbs, h⟩

theorem isDecimal_zero_iff {n : Int} {text : List Char} :
    IsDecimal 0 n text ↔ text = integer n := by
  rw [isDecimal_iff, zeroPad_of_le (Nat.zero_le _), integer]

theorem group_integer (n : Int) :
    group (integer n) = signed (n < 0) (withCommas (decimal n.natAbs)) := by
  rw [(isPlain_integer n).group_eq, List.append_nil]

theorem integerSpecified_of_not_mem {s : Specifier} (h : s.letter ∉ meaningfulLetters) (width : Nat)
    (n : Int) : integerSpecified width n s = integer n := by
  unfold integerSpecified
  split
  case h_13 => rfl
  all_goals
    rename_i hletter
    rw [hletter] at h
    exact absurd (by decide) h

theorem integerFormat_of_parse? {format : String} {s : Specifier}
    (h : Specifier.parse? format = some s) (width : Nat) (n : Int) :
    integerFormat width n (some format) = integerSpecified width n s := by
  rw [integerFormat, Option.bind_some, h]

/-- What a format string asks for is what is written. -/
theorem Prescribes.eq_integerFormat {width : Nat} {n : Int} {format : String} {text : List Char}
    (hfits : (integer n).length ≤ integerScratchSize) (h : Prescribes width n format text) :
    text = integerFormat width n (some format) := by
  cases h with
  | plain hletter htext =>
    rw [isDecimal_zero_iff.1 htext]
    cases hparse : Specifier.parse? format with
    | none => rw [integerFormat, Option.bind_some, hparse]
    | some s =>
      obtain ⟨digits, hspells, -⟩ := parse?_eq_some_iff.1 hparse
      rw [integerFormat_of_parse? hparse,
        integerSpecified_of_not_mem (hletter s.letter digits hspells)]
  | padded hspells hletter htext =>
    rw [isDecimal_iff.1 htext, integerFormat_of_parse? (parse?_of_spells hspells)]
    rcases hletter with rfl | rfl <;> rfl
  | @bits upper digits _ hspells htext =>
    rw [isNumeral_hexadecimal_iff.1 htext, integerFormat_of_parse? (parse?_of_spells hspells)]
    cases upper <;> rfl
  | grouped hspells hletter hwhole =>
    rw [isNumeral_zero_iff.1 hwhole, ← group_integer, ← groupedInteger_eq hfits,
      integerFormat_of_parse? (parse?_of_spells hspells)]
    rcases hletter with rfl | rfl <;> rfl
  | fixed hspells hletter htext =>
    rw [isDecimal_zero_iff.1 htext, integerFormat_of_parse? (parse?_of_spells hspells)]
    rcases hletter with rfl | rfl <;> rfl

theorem prescribes_integerFormat (width : Nat) {n : Int} {format : String}
    (hfits : (integer n).length ≤ integerScratchSize) (hfloating : ¬AsksForFloating format) :
    Prescribes width n format (integerFormat width n (some format)) := by
  cases hparse : Specifier.parse? format with
  | none =>
    rw [integerFormat, Option.bind_some, hparse]
    exact .plain (fun letter digits hspells => absurd hspells (parse?_eq_none_iff.1 hparse _ _))
      (isDecimal_zero_iff.2 rfl)
  | some s =>
    obtain ⟨digits, hspells, hnamed⟩ := parse?_eq_some_iff.1 hparse
    rw [integerFormat_of_parse? hparse]
    obtain ⟨letter, precision⟩ := s
    obtain rfl : precision = named digits := hnamed
    have hfloat : letter ∉ ['E', 'e', 'P', 'p'] := fun hmem =>
      hfloating ⟨letter, digits, hspells, hmem⟩
    simp only at hspells
    unfold integerSpecified
    split
    case h_1 _ h | h_2 _ h =>
      exact .padded hspells (by simp [show letter = _ from h]) (isDecimal_iff.2 rfl)
    case h_3 _ h =>
      obtain rfl : letter = 'X' := h
      exact .bits true hspells (isNumeral_hexadecimal_iff.2 rfl)
    case h_4 _ h =>
      obtain rfl : letter = 'x' := h
      exact .bits false hspells (isNumeral_hexadecimal_iff.2 rfl)
    case h_5 _ h | h_6 _ h =>
      rw [groupedInteger_eq hfits, group_integer]
      exact .grouped hspells (by simp [show letter = _ from h]) (isNumeral_zero_iff.2 rfl)
    case h_7 _ h | h_8 _ h =>
      exact .fixed hspells (by simp [show letter = _ from h]) (isDecimal_zero_iff.2 rfl)
    case h_9 _ h | h_10 _ h | h_11 _ h | h_12 _ h =>
      exact absurd (by simp [show letter = _ from h]) hfloat
    case h_13 =>
      refine .plain (fun other more hother => ?_) (isDecimal_zero_iff.2 rfl)
      obtain rfl : other = letter := hspells.letter_eq hother
      simp_all [meaningfulLetters]

/-! ## Reading the text back -/

def readWhole? (text : List Char) : Option Nat :=
  if (text.dropWhile (· ≠ '.')).tail.all (· = '0') then
    readNumeral? decimalDigits (text.takeWhile (· ≠ '.'))
  else none

/-- The integer that a decimal text stands for, with or without commas and a zero fraction. -/
def readInteger? (text : List Char) : Option Int :=
  readSigned? readWhole? (text.filter (· ≠ ','))

theorem readInteger?_eq {negative : Bool} {whole fraction text : List Char} {n : Nat}
    (hplain : IsPlain negative whole fraction (text.filter (· ≠ ',')))
    (hwhole : readNumeral? decimalDigits whole = some n)
    (hfraction : fraction.tail.all (· = '0') = true) :
    readInteger? text = some (if negative then -(n : Int) else n) := by
  obtain ⟨htake, hdrop⟩ := hplain.takeWhile_point
  have hread : readWhole? (whole ++ fraction) = some n := by
    rw [readWhole?, htake, hdrop, if_pos hfraction, hwhole]
  rw [readInteger?, hplain.text_eq, readSigned?_signed hread (hplain.minus_not_mem_head? fraction)]

theorem tail_zeroFraction_all (places : Nat) :
    (zeroFraction places).tail.all (· = '0') = true := by
  rw [zeroFraction]
  split
  · rfl
  · rw [List.tail_cons, List.all_eq_true]
    intro c hc
    exact decide_eq_true (List.eq_of_mem_replicate hc)

theorem isPlain_zeroFraction {width n : Nat} {whole : List Char}
    (h : IsNumeral decimalDigits width n whole) (negative : Bool) (places : Nat) :
    IsPlain negative whole (zeroFraction places)
      (signed negative (whole ++ zeroFraction places)) := by
  refine ⟨rfl, ⟨h.ne_nil, isDigit_of_isNumeral h⟩, ?_⟩
  rw [zeroFraction]
  split
  · exact .inl rfl
  · refine .inr ⟨_, rfl, fun c hc => ?_⟩
    rw [List.eq_of_mem_replicate hc]
    rfl

theorem signed_append (negative : Bool) (a b : List Char) :
    signed negative (a ++ b) = signed negative a ++ b := by
  cases negative <;> rfl

theorem Prescribes.exists_filter_eq {width : Nat} {n : Int} {format : String} {text : List Char}
    (h : Prescribes width n format text) (hbits : ¬AsksForBits format) :
    ∃ atLeast whole places, IsNumeral decimalDigits atLeast n.natAbs whole ∧
      text.filter (· ≠ ',') = signed (n < 0) (whole ++ zeroFraction places) := by
  cases h with
  | plain _ htext | padded _ _ htext =>
    obtain ⟨whole, hwhole, rfl⟩ := htext
    have hplain := isPlain_zeroFraction hwhole (n < 0) 0
    rw [zeroFraction, if_pos rfl, List.append_nil] at hplain
    refine ⟨_, whole, 0, hwhole, ?_⟩
    rw [hplain.filter_eq, zeroFraction, if_pos rfl, List.append_nil]
  | @bits upper digits _ hspells _ =>
    refine absurd ⟨_, digits, hspells, ?_⟩ hbits
    cases upper <;> simp
  | @grouped _ digits whole _ _ hwhole =>
    have hplain := isPlain_zeroFraction hwhole (n < 0) ((named digits).getD 2)
    refine ⟨_, whole, (named digits).getD 2, hwhole, ?_⟩
    rw [← signed_append, ← hplain.group_eq, hplain.filter_group]
  | @fixed _ digits _ _ _ htext =>
    obtain ⟨whole, hwhole, rfl⟩ := htext
    have hplain := isPlain_zeroFraction hwhole (n < 0) ((named digits).getD 2)
    refine ⟨_, whole, (named digits).getD 2, hwhole, ?_⟩
    rw [← signed_append, hplain.filter_eq]

theorem Prescribes.readInteger?_eq {width : Nat} {n : Int} {format : String} {text : List Char}
    (h : Prescribes width n format text) (hbits : ¬AsksForBits format) :
    readInteger? text = some n := by
  obtain ⟨atLeast, whole, places, hwhole, hfilter⟩ := h.exists_filter_eq hbits
  have hplain := isPlain_zeroFraction hwhole (n < 0) places
  rw [← hfilter] at hplain
  rw [Number.readInteger?_eq hplain hwhole.readNumeral?_eq (tail_zeroFraction_all places)]
  by_cases hnegative : n < 0
  · simp only [hnegative, decide_true, ↓reduceIte]
    congr 1
    omega
  · simp only [hnegative, decide_false, Bool.false_eq_true, ↓reduceIte]
    congr 1
    omega

theorem ofInt_value (kind : IntegerKind) (bits : BitVec kind.width) :
    BitVec.ofInt kind.width (kind.value bits) = bits := by
  rw [IntegerKind.value]
  split
  · exact BitVec.ofInt_toInt
  · rw [BitVec.ofInt_natCast, BitVec.ofNat_toNat, BitVec.setWidth_eq]

theorem Prescribes.readHexadecimal?_eq {kind : IntegerKind} {bits : BitVec kind.width}
    {format : String} {text : List Char}
    (h : Prescribes kind.width (kind.value bits) format text) (hbits : AsksForBits format) :
    readHexadecimal? text = some bits.toNat := by
  obtain ⟨letter, digits, hspells, hletter⟩ := hbits
  have hvalue : (kind.value bits % (Nat.pow 2 kind.width : Nat)).toNat = bits.toNat := by
    have hofInt := congrArg BitVec.toNat (ofInt_value kind bits)
    rw [BitVec.toNat_ofInt] at hofInt
    exact hofInt
  simp only [List.mem_cons, List.not_mem_nil, or_false] at hletter
  cases h with
  | plain hnone _ =>
    have hmeans : letter ∈ meaningfulLetters := by
      rcases hletter with rfl | rfl <;> decide
    exact absurd hmeans (hnone letter digits hspells)
  | padded hother hcase _ | grouped hother hcase _ | fixed hother hcase _ =>
    rw [hspells.letter_eq hother] at hcase
    rcases hletter with rfl | rfl <;> simp at hcase
  | bits upper _ htext =>
    rw [Number.readHexadecimal?_eq htext, hvalue]

end Logbook.Number

namespace Logbook.Record

open Number Text

/-- Whatever was done to a record, an integer in it is shown as the one text that its format asks
for, and this text is read back as the same integer: as it is, but for commas and a zero fraction,
or from its bits. -/
theorem run_integers (segment : Segment) (capacity serial : Nat) (ops : List Operation)
    (hsize : segment.size < 0x1_0000_0000) :
    let r := (create segment capacity serial).run ops
    ∃ kept part marked, r.Keeps (Operation.lastAdded ops) kept part marked ∧
      ∀ (kind : IntegerKind) (bits : BitVec kind.width) (format : String),
        ¬AsksForFloating format →
          ∃ text,
            (∀ other, Prescribes kind.width (kind.value bits) format other ↔ other = text) ∧
            (¬AsksForBits format → readInteger? text = some (kind.value bits)) ∧
            (AsksForBits format → ∃ m, readHexadecimal? text = some m ∧
              m < Nat.pow 2 kind.width ∧
              kind.value (BitVec.ofNat kind.width m) = kind.value bits) ∧
            r.Shows kept part (.value (.integer kind bits) (some format)) text := by
  intro r
  obtain ⟨kept, part, marked, h⟩ := keeps_run segment capacity serial ops
  refine ⟨kept, part, marked, h, fun kind bits format hfloating => ?_⟩
  obtain ⟨hlow, hhigh⟩ := value_bounds kind bits
  have hfits := length_integer_le hlow hhigh
  have hprescribed := prescribes_integerFormat kind.width hfits hfloating
  refine ⟨_, fun other => ⟨fun hother => hother.eq_integerFormat hfits, ?_⟩,
    hprescribed.readInteger?_eq, fun hbits => ?_,
    h.shows (size_run_lt hsize capacity serial ops) rfl fun _ _ => rfl⟩
  · rintro rfl
    exact hprescribed
  · refine ⟨bits.toNat, hprescribed.readHexadecimal?_eq hbits, bits.isLt, ?_⟩
    rw [BitVec.ofNat_toNat, BitVec.setWidth_eq]

/-- The least integer of eight bits, grouped and between two texts. -/
theorem run_integers_least :
    let least : Addition := .value (.integer .int8 0x80) (some "N1")
    let ops : List Operation := [.reset none .info .epoch "main",
      .add (.value (.text "at ") none), .add least, .add (.value (.text ".") none)]
    let r := (create (Segment.zeroed 64) 8 0).run ops
    let units : Array UInt8 :=
      (r.render .empty {} false {} (Output.unlimited utf8)).out.units
    r.truncated = false ∧ readInteger? "-128.0".toList = some (-128) ∧
      units.toList = Utf8.bytes "at -128.0." := by
  intro least ops r units
  have hspells : Specifier.Spells "N1" 'N' ['1'] :=
    ⟨rfl, rfl, List.all_eq_true.1 rfl, by decide⟩
  have hfloating : ¬AsksForFloating "N1" := by
    rintro ⟨letter, digits, h, hmem⟩
    simp [hspells.letter_eq h] at hmem
  have hbits : ¬AsksForBits "N1" := by
    rintro ⟨letter, digits, h, hmem⟩
    simp [hspells.letter_eq h] at hmem
  have hwhole : IsNumeral decimalDigits 0 (-128 : Int).natAbs (decimal 128) :=
    isNumeral_zero_iff.2 rfl
  have hprescribed : Prescribes 8 (-128) "N1" "-128.0".toList :=
    .grouped hspells (.inl rfl) hwhole
  obtain ⟨kept, part, marked, h, hintegers⟩ :=
    run_integers (Segment.zeroed 64) 8 0 ops (by decide)
  obtain ⟨text, hunique, hread, -, hshows⟩ := hintegers .int8 0x80 "N1" hfloating
  obtain rfl : "-128.0".toList = text := (hunique _).1 hprescribed
  have htruncated : r.truncated = false := by decide
  obtain ⟨rfl, rfl⟩ := h.all_kept htruncated
  have hplaced : r.Shows ([.value (.text "at ") none] ++ least :: [.value (.text ".") none]) none
      least "-128.0".toList := hshows
  have hunits := hplaced.toList_units (by simp [Addition.isReadable, Value.isReadable]) .empty nofun
    {} {} utf8
  exact ⟨htruncated, hread hbits, hunits.trans (congrArg utf8.encodeChars (by decide))⟩

end Logbook.Record
