import Logbook.Number.Digits
import Mathlib.Tactic.Ring
set_option autoImplicit false

/-!
# Numerals

A numeral is read digit by digit, each by its place in the row of the digits of its base. `IsNumeral`
says which text a number has in a base, if at least so many digits are asked for: it is read as the
number, and it has no digit more than that takes. There is one such text only, and it is what the
padded digits of the number are.
-/
namespace Logbook.Number

def decimalDigits : List Char := "0123456789".toList

def lowerDigits : List Char := "0123456789abcdef".toList

def upperDigits : List Char := "0123456789ABCDEF".toList

def readDigits? (alphabet : List Char) : Nat → List Char → Option Nat
  | n, [] => some n
  | n, c :: rest =>
    match alphabet.idxOf? c with
    | some d => readDigits? alphabet (alphabet.length * n + d) rest
    | none => none

def readNumeral? (alphabet cs : List Char) : Option Nat :=
  if cs = [] then none else readDigits? alphabet 0 cs

/-- The text of `n` in the base of the digits, with at least `width` of them and always one. -/
structure IsNumeral (alphabet : List Char) (width n : Nat) (cs : List Char) : Prop where
  read : readDigits? alphabet 0 cs = some n
  enough : max width 1 ≤ cs.length
  /-- One digit less would not do. -/
  needed : max width 1 < cs.length → Nat.pow alphabet.length (cs.length - 1) ≤ n

section Reading

variable {alphabet : List Char}

theorem readDigits?_cons {n d : Nat} {c : Char} (h : alphabet.idxOf? c = some d)
    (rest : List Char) :
    readDigits? alphabet n (c :: rest) = readDigits? alphabet (alphabet.length * n + d) rest := by
  rw [readDigits?, h]

theorem exists_of_readDigits?_cons {n v : Nat} {c : Char} {rest : List Char}
    (h : readDigits? alphabet n (c :: rest) = some v) :
    ∃ d, alphabet.idxOf? c = some d ∧ d < alphabet.length ∧
      readDigits? alphabet (alphabet.length * n + d) rest = some v := by
  rw [readDigits?] at h
  cases hd : alphabet.idxOf? c with
  | none =>
    rw [hd] at h
    cases h
  | some d =>
    rw [hd] at h
    obtain ⟨hlt, -⟩ := List.idxOf?_eq_some_iff.1 hd
    exact ⟨d, rfl, hlt, h⟩

theorem not_mem_of_readDigits? {n v : Nat} {cs : List Char}
    (h : readDigits? alphabet n cs = some v) {c : Char} (hc : c ∉ alphabet) : c ∉ cs := by
  induction cs generalizing n with
  | nil => exact List.not_mem_nil
  | cons digit cs ih =>
    obtain ⟨d, hd, -, hrest⟩ := exists_of_readDigits?_cons h
    obtain ⟨hlt, hget, -⟩ := List.idxOf?_eq_some_iff.1 hd
    rw [List.mem_cons, not_or]
    refine ⟨?_, ih hrest⟩
    rintro rfl
    exact hc (hget ▸ List.getElem_mem hlt)

theorem readDigits?_append (n : Nat) (a b : List Char) :
    readDigits? alphabet n (a ++ b) =
      (readDigits? alphabet n a).bind fun m => readDigits? alphabet m b := by
  induction a generalizing n with
  | nil => rfl
  | cons c a ih =>
    rw [List.cons_append, readDigits?, readDigits?]
    cases alphabet.idxOf? c with
    | none => rfl
    | some d => exact ih _

theorem lt_of_readDigits? {n v : Nat} {cs : List Char} (h : readDigits? alphabet n cs = some v) :
    v < (n + 1) * alphabet.length ^ cs.length := by
  induction cs generalizing n with
  | nil =>
    obtain rfl : n = v := Option.some.inj h
    simp
  | cons c cs ih =>
    obtain ⟨d, -, hd, hrest⟩ := exists_of_readDigits?_cons h
    have hle : alphabet.length * n + d + 1 ≤ (n + 1) * alphabet.length := by
      have hmul : (n + 1) * alphabet.length = alphabet.length * n + alphabet.length := by ring
      omega
    calc v < (alphabet.length * n + d + 1) * alphabet.length ^ cs.length := ih hrest
      _ ≤ (n + 1) * alphabet.length * alphabet.length ^ cs.length :=
        Nat.mul_le_mul_right _ hle
      _ = (n + 1) * alphabet.length ^ (c :: cs).length := by
        rw [List.length_cons, Nat.pow_succ]
        ring

theorem readDigits?_injective {n m v : Nat} {a b : List Char} (hlength : a.length = b.length)
    (ha : readDigits? alphabet n a = some v) (hb : readDigits? alphabet m b = some v) :
    n = m ∧ a = b := by
  induction a generalizing n m b with
  | nil =>
    obtain rfl : b = [] := List.length_eq_zero_iff.1 hlength.symm
    exact ⟨(Option.some.inj ha).trans (Option.some.inj hb).symm, rfl⟩
  | cons c a ih =>
    cases b with
    | nil => cases hlength
    | cons c' b =>
      obtain ⟨d, hc, hd, ha⟩ := exists_of_readDigits?_cons ha
      obtain ⟨d', hc', hd', hb⟩ := exists_of_readDigits?_cons hb
      obtain ⟨hsum, rfl⟩ := ih (Nat.succ.inj hlength) ha hb
      -- the digit is the remainder of the number so far
      have hn : n = m := by
        have hdiv := congrArg (· / alphabet.length) hsum
        simp only [Nat.mul_add_div (Nat.zero_lt_of_lt hd), Nat.div_eq_of_lt hd,
          Nat.div_eq_of_lt hd'] at hdiv
        exact hdiv
      subst hn
      obtain rfl : d = d' := Nat.add_left_cancel hsum
      obtain ⟨_, hget, -⟩ := List.idxOf?_eq_some_iff.1 hc
      obtain ⟨_, hget', -⟩ := List.idxOf?_eq_some_iff.1 hc'
      have hsame : c = c' := by
        rw [← hget, ← hget']
      exact ⟨rfl, by rw [hsame]⟩

theorem readDigits?_replicate_zero {zero : Char} (hzero : alphabet.idxOf? zero = some 0)
    (count : Nat) (cs : List Char) :
    readDigits? alphabet 0 (List.replicate count zero ++ cs) = readDigits? alphabet 0 cs := by
  induction count with
  | zero => rfl
  | succ count ih =>
    rw [List.replicate_succ, List.cons_append, readDigits?_cons hzero, Nat.mul_zero]
    exact ih

/-- Digits that are written one by one are read as the number that they came from. -/
theorem readDigits?_toDigits {base : Nat} (hbase : 1 < base) (hlength : alphabet.length = base)
    {write : Char → Char} (hwrite : ∀ d < base, alphabet.idxOf? (write d.digitChar) = some d)
    (n : Nat) : readDigits? alphabet 0 ((Nat.toDigits base n).map write) = some n := by
  induction n using Nat.strongRecOn with
  | ind n ih =>
    by_cases hlt : n < base
    · rw [Nat.toDigits_of_lt_base hlt, List.map_singleton, readDigits?_cons (hwrite n hlt),
        Nat.mul_zero, Nat.zero_add]
      rfl
    · have hle : base ≤ n := Nat.le_of_not_lt hlt
      have hmod : n % base < base := Nat.mod_lt n (Nat.zero_lt_of_lt hbase)
      have hdiv := ih (n / base) (Nat.div_lt_self (by omega) hbase)
      rw [Nat.toDigits_of_base_le hbase hle, List.map_append, readDigits?_append, hdiv,
        Option.bind_some, List.map_singleton, readDigits?_cons (hwrite _ hmod), hlength,
        Nat.div_add_mod]
      rfl

theorem readDigits?_map {other : List Char} (hlength : other.length = alphabet.length)
    {write : Char → Char}
    (hwrite : ∀ c d, alphabet.idxOf? c = some d → other.idxOf? (write c) = some d) {n v : Nat}
    {cs : List Char} (h : readDigits? alphabet n cs = some v) :
    readDigits? other n (cs.map write) = some v := by
  induction cs generalizing n with
  | nil => exact h
  | cons c cs ih =>
    obtain ⟨d, hc, -, hrest⟩ := exists_of_readDigits?_cons h
    rw [List.map_cons, readDigits?_cons (hwrite c d hc), hlength]
    exact ih hrest

end Reading

namespace IsNumeral

variable {alphabet : List Char} {width n : Nat} {a b : List Char}

theorem ne_nil (h : IsNumeral alphabet width n a) : a ≠ [] := by
  rintro rfl
  have henough := h.enough
  rw [List.length_nil] at henough
  omega

theorem readNumeral?_eq (h : IsNumeral alphabet width n a) : readNumeral? alphabet a = some n := by
  rw [readNumeral?, if_neg h.ne_nil, h.read]

theorem length_le (ha : IsNumeral alphabet width n a) (hb : IsNumeral alphabet width n b) :
    a.length ≤ b.length := by
  by_contra hlt
  have hlonger : b.length < a.length := Nat.lt_of_not_le hlt
  have hneeded := ha.needed (Nat.lt_of_le_of_lt hb.enough hlonger)
  have hread := lt_of_readDigits? hb.read
  rw [Nat.zero_add, Nat.one_mul] at hread
  have hpos : 0 < alphabet.length := by
    obtain ⟨c, rest, rfl⟩ := List.exists_cons_of_ne_nil hb.ne_nil
    obtain ⟨d, -, hd, -⟩ := exists_of_readDigits?_cons hb.read
    exact Nat.zero_lt_of_lt hd
  have hpow : alphabet.length ^ b.length ≤ Nat.pow alphabet.length (a.length - 1) :=
    Nat.pow_le_pow_right hpos (Nat.le_sub_one_of_lt hlonger)
  omega

theorem unique (ha : IsNumeral alphabet width n a) (hb : IsNumeral alphabet width n b) : a = b :=
  (readDigits?_injective (Nat.le_antisymm (ha.length_le hb) (hb.length_le ha)) ha.read hb.read).2

end IsNumeral

theorem isNumeral_zeroPad (alphabet : List Char) (base : Nat) (write : Char → Char)
    (hbase : 1 < base) (hlength : alphabet.length = base)
    (hwrite : ∀ d < base, alphabet.idxOf? (write d.digitChar) = some d)
    (hzero : alphabet.idxOf? '0' = some 0) (width n : Nat) :
    IsNumeral alphabet width n (zeroPad width ((Nat.toDigits base n).map write)) := by
  have hpos : 0 < (Nat.toDigits base n).length := List.length_pos_iff.2 Nat.toDigits_ne_nil
  refine ⟨?_, ?_, fun hlonger => ?_⟩
  · rw [zeroPad, readDigits?_replicate_zero hzero, readDigits?_toDigits hbase hlength hwrite]
  · rw [length_zeroPad, List.length_map]
    omega
  · rw [length_zeroPad, List.length_map] at hlonger ⊢
    have hmax : max width (Nat.toDigits base n).length = (Nat.toDigits base n).length := by omega
    rw [hmax] at hlonger ⊢
    rw [hlength]
    -- a shorter text is that of a smaller number
    by_contra hlt
    have hshort := (Nat.length_toDigits_le_iff hbase (k := (Nat.toDigits base n).length - 1)
      (by omega)).2 (Nat.lt_of_not_le hlt)
    omega

theorem isNumeral_decimal (width n : Nat) :
    IsNumeral decimalDigits width n (zeroPad width (decimal n)) := by
  have h := isNumeral_zeroPad decimalDigits 10 id (by decide) rfl (by decide) (by decide) width n
  rw [List.map_id] at h
  exact h

theorem isNumeral_hexadecimal (upper : Bool) (width n : Nat) :
    IsNumeral (if upper then upperDigits else lowerDigits) width n
      (zeroPad width (hexadecimal upper n)) := by
  cases upper with
  | true =>
    exact isNumeral_zeroPad upperDigits 16 Char.toUpper (by decide) rfl (by decide) (by decide)
      width n
  | false =>
    have h := isNumeral_zeroPad lowerDigits 16 id (by decide) rfl (by decide) (by decide) width n
    rw [List.map_id] at h
    exact h

theorem isNumeral_decimal_iff {width n : Nat} {cs : List Char} :
    IsNumeral decimalDigits width n cs ↔ cs = zeroPad width (decimal n) := by
  constructor
  · exact fun h => h.unique (isNumeral_decimal width n)
  · rintro rfl
    exact isNumeral_decimal width n

theorem isNumeral_zero_iff {n : Nat} {cs : List Char} :
    IsNumeral decimalDigits 0 n cs ↔ cs = decimal n := by
  rw [isNumeral_decimal_iff, zeroPad, Nat.zero_sub]
  rfl

theorem isNumeral_hexadecimal_iff {upper : Bool} {width n : Nat} {cs : List Char} :
    IsNumeral (if upper then upperDigits else lowerDigits) width n cs ↔
      cs = zeroPad width (hexadecimal upper n) := by
  constructor
  · exact fun h => h.unique (isNumeral_hexadecimal upper width n)
  · rintro rfl
    exact isNumeral_hexadecimal upper width n

theorem isDigit_of_isNumeral {width n : Nat} {cs : List Char}
    (h : IsNumeral decimalDigits width n cs) : ∀ c ∈ cs, c.isDigit = true := by
  rw [isNumeral_decimal_iff] at h
  subst h
  intro c hc
  rcases List.mem_append.1 hc with hzero | hdigit
  · rw [List.eq_of_mem_replicate hzero]
    rfl
  · exact isDigit_of_mem_decimal hdigit

theorem length_zeroPad_decimal {count n : Nat} (hcount : 0 < count) (hn : n < 10 ^ count) :
    (zeroPad count (decimal n)).length = count := by
  have hlength : (decimal n).length ≤ count :=
    (Nat.length_toDigits_le_iff (by decide) hcount).2 hn
  rw [length_zeroPad]
  omega

def readHexadecimal? (text : List Char) : Option Nat :=
  readNumeral? lowerDigits (text.map Char.toLower)

theorem readHexadecimal?_eq {upper : Bool} {width n : Nat} {cs : List Char}
    (h : IsNumeral (if upper then upperDigits else lowerDigits) width n cs) :
    readHexadecimal? cs = some n := by
  have hlength : (if upper then upperDigits else lowerDigits).length = lowerDigits.length := by
    cases upper <;> decide
  have hall : (if upper then upperDigits else lowerDigits).all (fun c =>
      lowerDigits.idxOf? c.toLower == (if upper then upperDigits else lowerDigits).idxOf? c) =
        true := by
    cases upper <;> decide
  generalize (if upper then upperDigits else lowerDigits) = alphabet at h hlength hall
  have hsame : ∀ c ∈ alphabet, lowerDigits.idxOf? c.toLower = alphabet.idxOf? c :=
    fun c hc => eq_of_beq (List.all_eq_true.1 hall c hc)
  have hlower : ∀ c d, alphabet.idxOf? c = some d → lowerDigits.idxOf? c.toLower = some d := by
    intro c d hd
    obtain ⟨hlt, hget, -⟩ := List.idxOf?_eq_some_iff.1 hd
    rw [hsame c (hget ▸ List.getElem_mem hlt), hd]
  have hne : cs.map Char.toLower ≠ [] := fun hnil => h.ne_nil (List.map_eq_nil_iff.1 hnil)
  rw [readHexadecimal?, readNumeral?, if_neg hne]
  exact readDigits?_map hlength.symm hlower h.read

def readSigned? (read : List Char → Option Nat) : List Char → Option Int
  | '-' :: rest => (read rest).map fun n => -(n : Int)
  | rest => (read rest).map Int.ofNat

theorem readSigned?_signed {read : List Char → Option Nat} {cs : List Char} {n : Nat}
    (hread : read cs = some n) (hsign : '-' ∉ cs.head?) (negative : Bool) :
    readSigned? read (signed negative cs) = some (if negative then -(n : Int) else n) := by
  cases negative with
  | true =>
    simp only [signed, ↓reduceIte, readSigned?, hread]
    rfl
  | false =>
    simp only [signed, Bool.false_eq_true, ↓reduceIte]
    unfold readSigned?
    split
    · exact absurd rfl hsign
    · rw [hread]
      rfl

end Logbook.Number
