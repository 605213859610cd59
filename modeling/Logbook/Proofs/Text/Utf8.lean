import Logbook.Output
set_option autoImplicit false

/-!
# Reading back bytes that were written

The bytes of some characters, read as UTF-8, give the characters again.
-/
namespace Logbook

open Text

namespace Text.Utf8

theorem toByteArray_encodeChars (cs : List Char) :
    (⟨(utf8.encodeChars cs).toArray⟩ : ByteArray) = cs.utf8Encode := by
  apply ByteArray.ext
  change _ = (List.flatMap String.utf8EncodeChar cs).toByteArray.data
  rw [List.data_toByteArray]
  rfl

theorem readChars_utf8Encode (cs : List Char) (fuel : Nat) (h : cs.length ≤ fuel) :
    readChars cs.utf8Encode fuel = cs := by
  induction cs generalizing fuel with
  | nil =>
    cases fuel with
    | zero => rfl
    | succ fuel => rfl
  | cons c cs ih =>
    cases fuel with
    | zero => simp at h
    | succ fuel =>
      have hrest : (c :: cs).utf8Encode.extract c.utf8Size (c :: cs).utf8Encode.size =
          cs.utf8Encode := by
        rw [List.utf8Encode_cons, List.utf8Encode_singleton]
        apply ByteArray.extract_append_eq_right
        · simp
        · rw [ByteArray.size_append]
      rw [readChars, List.utf8DecodeChar?_utf8Encode_cons]
      simp only [hrest]
      rw [ih fuel (Nat.le_of_succ_le_succ h)]

theorem length_le_encodeChars (cs : List Char) : cs.length ≤ (utf8.encodeChars cs).length := by
  induction cs with
  | nil => exact Nat.zero_le _
  | cons c cs ih =>
    have hc : 0 < (utf8.encode c).length := List.length_pos_iff.2 String.utf8EncodeChar_ne_nil
    rw [Encoding.encodeChars_cons, List.length_append, List.length_cons]
    omega

theorem length_encode_le (c : Char) : (utf8.encode c).length ≤ 4 := by
  change (String.utf8EncodeChar c).length ≤ 4
  rw [String.length_utf8EncodeChar]
  exact c.utf8Size_le_four

theorem length_encodeChars_le (cs : List Char) : (utf8.encodeChars cs).length ≤ 4 * cs.length := by
  induction cs with
  | nil => exact Nat.zero_le _
  | cons c cs ih =>
    have hc := length_encode_le c
    rw [Encoding.encodeChars_cons, List.length_append, List.length_cons]
    omega

theorem validPrefix_encodeChars (cs : List Char) : validPrefix (utf8.encodeChars cs) = cs := by
  change readChars ⟨(utf8.encodeChars cs).toArray⟩ _ = cs
  rw [toByteArray_encodeChars]
  exact readChars_utf8Encode cs _ (length_le_encodeChars cs)

end Text.Utf8

theorem Output.text_of_units {out : Output utf8} {cs : List Char}
    (h : out.units.toList = utf8.encodeChars cs) : out.text = String.ofList cs := by
  have hu : out.units = (utf8.encodeChars cs).toArray := by
    rw [← h, Array.toArray_toList]
  have hb : (⟨out.units⟩ : ByteArray) = (String.ofList cs).toByteArray := by
    rw [hu, String.toByteArray_ofList]
    exact Utf8.toByteArray_encodeChars cs
  rw [Output.text, hb, String.fromUTF8?, dif_pos (String.ofList cs).isValidUTF8]
  rfl

end Logbook
