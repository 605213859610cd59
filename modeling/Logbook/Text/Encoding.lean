set_option autoImplicit false

/-!
# Characters as code units

Outputs are measured in code units: bytes for UTF-8, 16-bit words for UTF-16. An encoding gives the
units of a character and tells which units continue a character begun earlier, which is all that
is needed to cut a text between two characters.

`Utf8.validPrefix` reads bytes of unknown origin back: it gives the characters up to the first byte
that no character can start or continue. `Utf16.decode?` reads whole texts only.
-/
namespace Logbook.Text

structure Encoding where
  CodeUnit : Type
  encode : Char → List CodeUnit
  /-- Whether a unit stands inside a character, after its first unit. -/
  continues : CodeUnit → Bool

namespace Encoding

def encodeChars (e : Encoding) (cs : List Char) : List e.CodeUnit :=
  cs.flatMap e.encode

def measure (e : Encoding) (text : String) : Nat :=
  (e.encodeChars text.toList).length

def WellFormed (e : Encoding) (units : List e.CodeUnit) : Prop :=
  ∃ cs : List Char, units = e.encodeChars cs

/-- A character has a first unit, and its other units continue it. -/
structure Lawful (e : Encoding) : Prop where
  encode_ne_nil : ∀ c, e.encode c ≠ []
  continues_head : ∀ c u rest, e.encode c = u :: rest → e.continues u = false
  continues_tail : ∀ c u rest, e.encode c = u :: rest → ∀ x ∈ rest, e.continues x = true

@[simp] theorem encodeChars_nil (e : Encoding) : e.encodeChars [] = [] := rfl

@[simp] theorem encodeChars_cons (e : Encoding) (c : Char) (cs : List Char) :
    e.encodeChars (c :: cs) = e.encode c ++ e.encodeChars cs := rfl

@[simp] theorem encodeChars_append (e : Encoding) (a b : List Char) :
    e.encodeChars (a ++ b) = e.encodeChars a ++ e.encodeChars b := by
  simp [encodeChars]

theorem wellFormed_append {e : Encoding} {a b : List e.CodeUnit} (ha : e.WellFormed a)
    (hb : e.WellFormed b) : e.WellFormed (a ++ b) := by
  obtain ⟨x, rfl⟩ := ha
  obtain ⟨y, rfl⟩ := hb
  exact ⟨x ++ y, (encodeChars_append e x y).symm⟩

end Encoding

/-- Bytes; those of the form `10xxxxxx` continue a character. -/
def utf8 : Encoding where
  CodeUnit := UInt8
  encode := String.utf8EncodeChar
  continues byte := byte &&& 0xC0 == 0x80

def utf16Units (c : Char) : List UInt16 :=
  if c.toNat < 0x10000 then [UInt16.ofNat c.toNat]
  else
    [UInt16.ofNat (0xD800 + (c.toNat - 0x10000) / 0x400),
      UInt16.ofNat (0xDC00 + (c.toNat - 0x10000) % 0x400)]

/-- Sixteen-bit words; a low surrogate continues a character. -/
def utf16 : Encoding where
  CodeUnit := UInt16
  encode := utf16Units
  continues word := decide (0xDC00 ≤ word) && decide (word ≤ 0xDFFF)

namespace Utf8

def bytes (text : String) : List UInt8 :=
  utf8.encodeChars text.toList

def readChars (data : ByteArray) : Nat → List Char
  | 0 => []
  | fuel + 1 =>
    match data.utf8DecodeChar? 0 with
    | some c => c :: readChars (data.extract c.utf8Size data.size) fuel
    | none => []

def validPrefix (data : List UInt8) : List Char :=
  readChars ⟨data.toArray⟩ data.length

end Utf8

namespace Utf16

def decode? : List UInt16 → Option (List Char)
  | [] => some []
  | word :: rest =>
    let w := word.toNat
    if w < 0xD800 ∨ 0xDFFF < w then (decode? rest).map (Char.ofNat w :: ·)
    else if 0xDC00 ≤ w then none
    else
      match rest with
      | [] => none
      | low :: rest =>
        if 0xDC00 ≤ low.toNat ∧ low.toNat ≤ 0xDFFF then
          (decode? rest).map
            (Char.ofNat (0x10000 + (w - 0xD800) * 0x400 + (low.toNat - 0xDC00)) :: ·)
        else none

end Utf16
end Logbook.Text
