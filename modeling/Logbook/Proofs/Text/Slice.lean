import Logbook.Text.JsonString
import Logbook.Proofs.Text.Encoding
set_option autoImplicit false

/-!
# Escaping as a pass over bytes

The writes of an escaped text are found in its bytes: a byte that has to be escaped ends a run, and
the run is the part of the text between two byte positions, which must not be inside of a
character. They never are, since a byte that has to be escaped is a character by itself.
-/
namespace Logbook.Text

namespace Utf8

def bytesOf (cs : List Char) : List UInt8 := cs.flatMap String.utf8EncodeChar

@[simp] theorem bytesOf_nil : bytesOf [] = [] := rfl

@[simp] theorem bytesOf_cons (c : Char) (cs : List Char) :
    bytesOf (c :: cs) = String.utf8EncodeChar c ++ bytesOf cs := rfl

@[simp] theorem bytesOf_append (a b : List Char) : bytesOf (a ++ b) = bytesOf a ++ bytesOf b :=
  List.flatMap_append

/-- The characters before and after the first `count` bytes of their encoding; none if a character
would be cut or the bytes are not there. -/
def split? : (count : Nat) → List Char → Option (List Char × List Char)
  | 0, cs => some ([], cs)
  | _ + 1, [] => none
  | count + 1, c :: rest =>
    if c.utf8Size ≤ count + 1 then
      (split? (count + 1 - c.utf8Size) rest).map fun parts => (c :: parts.1, parts.2)
    else none

def slice? (cs : List Char) (start stop : Nat) : Option (List Char) :=
  if start ≤ stop then
    (split? start cs).bind fun parts => (split? (stop - start) parts.2).map Prod.fst
  else none

theorem split?_append (a b : List Char) : split? (bytesOf a).length (a ++ b) = some (a, b) := by
  induction a with
  | nil => cases b <;> rfl
  | cons c a ih =>
    obtain ⟨count, hcount⟩ := Nat.exists_eq_succ_of_ne_zero (Nat.ne_of_gt c.utf8Size_pos)
    have hsize : (bytesOf (c :: a)).length = (count + (bytesOf a).length) + 1 := by
      rw [bytesOf_cons, List.length_append, String.length_utf8EncodeChar, hcount]
      omega
    have hrest : count + (bytesOf a).length + 1 - c.utf8Size = (bytesOf a).length := by omega
    rw [hsize, List.cons_append, split?, if_pos (by omega), hrest, ih]
    rfl

theorem slice?_append (a b c : List Char) :
    slice? (a ++ b ++ c) (bytesOf a).length (bytesOf (a ++ b)).length = some b := by
  rw [bytesOf_append, List.length_append, slice?, if_pos (Nat.le_add_right _ _), List.append_assoc,
    split?_append, Option.bind_some, Nat.add_sub_cancel_left, split?_append]
  rfl

/-! ## Characters of one byte and others -/

theorem encode_ascii {c : Char} (h : c.toNat < 128) :
    String.utf8EncodeChar c = [UInt8.ofNat c.toNat] := by
  have hle : c.val.toNat ≤ 127 := Nat.le_of_lt_succ h
  unfold String.utf8EncodeChar
  simp only [hle, ↓reduceIte]
  rfl

theorem le_of_mem_encode {c : Char} (h : 128 ≤ c.toNat) {b : UInt8}
    (hb : b ∈ String.utf8EncodeChar c) : 128 ≤ b.toNat := by
  have hc : c.val.toNat < 0x110000 := by
    have h := c.valid
    simp only [UInt32.isValidChar, Nat.isValidChar] at h
    omega
  have hgt : ¬ c.val.toNat ≤ 127 := Nat.not_le.2 h
  have hbyte : ∀ n, 128 ≤ n → n < 256 → 128 ≤ (UInt8.ofNat n).toNat := by
    intro n hle hlt
    rw [UInt8.toNat_ofNat_of_lt' hlt]
    exact hle
  unfold String.utf8EncodeChar at hb
  simp only [hgt, ↓reduceIte] at hb
  split at hb
  · simp only [List.mem_cons, List.not_mem_nil, or_false] at hb
    rcases hb with rfl | rfl <;> exact hbyte _ (by omega) (by omega)
  · split at hb
    · simp only [List.mem_cons, List.not_mem_nil, or_false] at hb
      rcases hb with rfl | rfl | rfl <;> exact hbyte _ (by omega) (by omega)
    · simp only [List.mem_cons, List.not_mem_nil, or_false] at hb
      rcases hb with rfl | rfl | rfl | rfl <;> exact hbyte _ (by omega) (by omega)

end Utf8

namespace JsonString

open Utf8

def escapeByte? (byte : UInt8) : Option (List String) :=
  if byte.toNat < 128 then escape? (Char.ofNat byte.toNat) else none

/-- The writes for the bytes of `text` from `index` on; the run that is not written yet goes back
to `start`. -/
def scan? (text : List Char) : (start index : Nat) → List UInt8 → Option (List String)
  | start, index, [] => (slice? text start index).map fun run => [String.ofList run]
  | start, index, byte :: bytes =>
    match escapeByte? byte with
    | some parts =>
      (slice? text start index).bind fun run =>
        (scan? text (index + 1) (index + 1) bytes).map fun rest =>
          String.ofList run :: parts ++ rest
    | none => scan? text start (index + 1) bytes

def pieces? (text : String) : Option (List String) :=
  scan? text.toList 0 0 (bytesOf text.toList)

theorem toNat_lt_of_escape? {c : Char} {parts : List String} (h : escape? c = some parts) :
    c.toNat < 128 := by
  by_cases hc : c.toNat < 128
  · exact hc
  · -- each character that has to be escaped is below 128
    have hne : ∀ d : Char, d.toNat < 128 → c ≠ d := by
      rintro d hd rfl
      exact hc hd
    have hcontrol : ¬ c.toNat < 32 := by omega
    rw [escape?, if_neg (hne _ (by decide)), if_neg (hne _ (by decide)), if_neg (hne _ (by decide)),
      if_neg (hne _ (by decide)), if_neg (hne _ (by decide)), if_neg (hne _ (by decide)),
      if_neg (hne _ (by decide)), if_neg hcontrol] at h
    cases h

theorem escapeByte?_ascii {c : Char} (h : c.toNat < 128) :
    escapeByte? (UInt8.ofNat c.toNat) = escape? c := by
  have hbyte : (UInt8.ofNat c.toNat).toNat = c.toNat :=
    UInt8.toNat_ofNat_of_lt' (Nat.lt_trans h (by decide))
  rw [escapeByte?, hbyte, if_pos h, Char.ofNat_toNat]

theorem escapeByte?_of_mem_encode {c : Char} (h : escape? c = none) {b : UInt8}
    (hb : b ∈ String.utf8EncodeChar c) : escapeByte? b = none := by
  by_cases hc : c.toNat < 128
  · rw [encode_ascii hc, List.mem_singleton] at hb
    rw [hb, escapeByte?_ascii hc, h]
  · have hle := le_of_mem_encode (Nat.not_lt.1 hc) hb
    rw [escapeByte?, if_neg (Nat.not_lt.2 hle)]

theorem scan?_plain (text : List Char) {bytes : List UInt8}
    (h : ∀ b ∈ bytes, escapeByte? b = none) (start index : Nat) (more : List UInt8) :
    scan? text start index (bytes ++ more) = scan? text start (index + bytes.length) more := by
  induction bytes generalizing index with
  | nil => rfl
  | cons b bytes ih =>
    rw [List.cons_append, scan?, h b List.mem_cons_self]
    simp only
    rw [ih (fun x hx => h x (List.mem_cons_of_mem b hx)), List.length_cons]
    congr 1
    omega

theorem scan?_eq (done run rest : List Char) :
    scan? (done ++ run ++ rest) (bytesOf done).length (bytesOf (done ++ run)).length
        (bytesOf rest) = some (piecesAfter run.reverse rest) := by
  induction rest generalizing done run with
  | nil =>
    simp only [bytesOf_nil, scan?, slice?_append, piecesAfter, List.reverse_reverse,
      Option.map_some]
  | cons c rest ih =>
    rw [bytesOf_cons, piecesAfter]
    cases hc : escape? c with
    | some parts =>
      have hascii := toNat_lt_of_escape? hc
      -- the run ends before the byte, and the next one starts after it
      have hnext := ih (done ++ run ++ [c]) []
      have hsize : (bytesOf (done ++ run ++ [c])).length = (bytesOf (done ++ run)).length + 1 := by
        rw [bytesOf_append, List.length_append, bytesOf_cons, encode_ascii hascii]
        rfl
      rw [List.append_nil, hsize, List.append_assoc _ [c], List.singleton_append] at hnext
      rw [encode_ascii hascii, List.singleton_append, scan?, escapeByte?_ascii hascii, hc]
      simp only [slice?_append, Option.bind_some, hnext, Option.map_some, List.reverse_reverse,
        List.reverse_nil]
    | none =>
      have hnext := ih done (run ++ [c])
      have hsize : (bytesOf (done ++ (run ++ [c]))).length =
          (bytesOf (done ++ run)).length + (String.utf8EncodeChar c).length := by
        rw [← List.append_assoc, bytesOf_append, List.length_append, bytesOf_cons, bytesOf_nil,
          List.append_nil]
      rw [hsize, List.append_assoc done, List.append_assoc run, List.singleton_append,
        ← List.append_assoc, List.reverse_append, List.reverse_singleton,
        List.singleton_append] at hnext
      rw [scan?_plain _ fun b hb => escapeByte?_of_mem_encode hc hb]
      exact hnext

/-- No run of a text begins or ends inside of a character. -/
theorem pieces?_eq (text : String) : pieces? text = some (pieces text) :=
  scan?_eq [] [] text.toList

end JsonString
end Logbook.Text
