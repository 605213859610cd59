import Logbook.Proofs.Record.Skip
set_option autoImplicit false

/-!
# Reading back what was not written there

Reading returns what was written; here is the other direction. Wherever in some bytes a reader
starts, the bytes that it takes are those that would have been written for what it returns, so a
header or a payload is read exactly where its bytes stand, whoever put them there.
-/
namespace Logbook.Record

/-! ## Words and spans -/

theorem eq_append_of_takeBytes {count : Nat} {data taken rest : List UInt8}
    (h : takeBytes count data = some (taken, rest)) : data = taken ++ rest := by
  induction count generalizing data taken with
  | zero =>
    cases h
    rfl
  | succ count ih =>
    cases data with
    | nil => cases h
    | cons byte data =>
      rw [takeBytes] at h
      cases htail : takeBytes count data with
      | none => simp [htail] at h
      | some tail =>
        rw [htail] at h
        cases h
        rw [List.cons_append, ← ih htail]

theorem toBytes_ofBytes (bytes : List UInt8) : toBytes bytes.length (ofBytes bytes) = bytes := by
  induction bytes with
  | nil => rfl
  | cons byte bytes ih =>
    have hlt : byte.toNat < 256 := byte.toNat_lt
    have hlow : UInt8.ofNat (byte.toNat + 256 * ofBytes bytes) = byte := by
      rw [← UInt8.toNat_inj, UInt8.toNat_ofNat']
      omega
    have hhigh : (byte.toNat + 256 * ofBytes bytes) / 256 = ofBytes bytes := by omega
    rw [List.length_cons, ofBytes, toBytes, hlow, hhigh, ih]

theorem ofBytes_lt (bytes : List UInt8) : ofBytes bytes < Nat.pow 256 bytes.length := by
  have hmod := ofBytes_toBytes bytes.length (ofBytes bytes)
  rw [toBytes_ofBytes] at hmod
  rw [hmod]
  exact Nat.mod_lt _ (Nat.pow_pos (by decide))

theorem eq_append_of_takeWord {count : Nat} {data rest : List UInt8}
    {word : BitVec (8 * count)} (h : takeWord count data = some (word, rest)) :
    data = wordBytes count word ++ rest := by
  rw [takeWord] at h
  cases htake : takeBytes count data with
  | none => simp [htake] at h
  | some pair =>
    obtain ⟨taken, left⟩ := pair
    rw [htake] at h
    cases h
    obtain rfl := length_of_takeBytes htake
    have hlt := ofBytes_lt taken
    have hp : (256 : Nat) ^ taken.length = 2 ^ (8 * taken.length) := by
      rw [Nat.pow_mul]
    rw [Nat.pow_eq, hp] at hlt
    rw [wordBytes, BitVec.toNat_ofNat, Nat.mod_eq_of_lt hlt, toBytes_ofBytes]
    exact eq_append_of_takeBytes htake

theorem eq_append_of_takeByte {data rest : List UInt8} {byte : UInt8}
    (h : takeByte data = some (byte, rest)) : data = [byte] ++ rest := by
  cases data with
  | nil => cases h
  | cons first data =>
    cases h
    rfl

theorem eq_append_of_takeSpan {data bytes rest : List UInt8}
    (h : takeSpan data = some (bytes, rest)) :
    bytes.length < 0x1_0000_0000 ∧ data = Payload.spanBytes bytes ++ rest := by
  rw [takeSpan] at h
  cases hword : takeWord 4 data with
  | none => simp [hword] at h
  | some pair =>
    obtain ⟨length, left⟩ := pair
    rw [hword] at h
    have hlength : bytes.length = length.toNat := length_of_takeBytes h
    refine ⟨hlength ▸ length.isLt, ?_⟩
    rw [eq_append_of_takeWord hword, eq_append_of_takeBytes h, Payload.spanBytes, hlength,
      List.append_assoc]
    rfl

/-! ## Headers -/

theorem Tag.code_all : ∀ i (h : i < all.length), (all[i]).code.toNat = i + 1 := by
  decide

theorem Tag.code_of_ofCode? {code : UInt8} {tag : Tag} (h : ofCode? code = some tag) :
    tag.code = code := by
  rw [ofCode?] at h
  split at h
  · cases h
  · rename_i hne
    obtain ⟨hlt, rfl⟩ := List.getElem?_eq_some_iff.1 h
    have hpos : code.toNat ≠ 0 := fun hzero => hne (UInt8.toNat_inj.1 hzero)
    rw [← UInt8.toNat_inj, code_all _ hlt]
    omega

theorem Tag.split_formatFlag (raw : UInt8) :
    (raw &&& formatFlag = 0 → raw &&& ~~~formatFlag = raw) ∧
      (raw &&& formatFlag ≠ 0 → (raw &&& ~~~formatFlag) ||| formatFlag = raw) := by
  have hall : ∀ n < 256, (UInt8.ofNat n &&& formatFlag = 0 →
        UInt8.ofNat n &&& ~~~formatFlag = UInt8.ofNat n) ∧
      (UInt8.ofNat n &&& formatFlag ≠ 0 →
        (UInt8.ofNat n &&& ~~~formatFlag) ||| formatFlag = UInt8.ofNat n) := by
    decide +kernel
  have hraw := hall raw.toNat raw.toNat_lt
  rwa [UInt8.ofNat_toNat] at hraw

theorem Header.take?_eq_some_iff {data rest : List UInt8} {header : Header} :
    Header.take? data = some (header, rest) ↔ data = header.bytes ++ rest := by
  refine ⟨fun h => ?_, fun h => h ▸ header.take?_bytes rest⟩
  cases data with
  | nil => cases h
  | cons raw data =>
    obtain ⟨hplain, hflagged⟩ := Tag.split_formatFlag raw
    rw [Header.take?] at h
    split at h
    · cases h
    · rename_i tag hcode
      have htag := Tag.code_of_ofCode? hcode
      split at h
      · rename_i hflag
        cases h
        rw [bytes, htag, hplain hflag]
        rfl
      · rename_i hflag
        cases data with
        | nil => cases h
        | cons index data =>
          cases h
          rw [bytes, htag, hflagged hflag]
          rfl

/-! ## Payloads -/

theorem exists_of_bind_wrap {α β : Type} {first : Option (α × List UInt8)} {wrap : α → β}
    {b : β} {rest : List UInt8}
    (h : (first.bind fun taken => some (wrap taken.1, taken.2)) = some (b, rest)) :
    ∃ a, first = some (a, rest) ∧ b = wrap a := by
  obtain ⟨⟨a, left⟩, hfirst, hwrap⟩ := Option.bind_eq_some_iff.1 h
  cases hwrap
  exact ⟨a, hfirst, rfl⟩

theorem eq_append_of_two {α : Type} {a b : Nat} {data rest : List UInt8}
    {wrap : BitVec (8 * a) → BitVec (8 * b) → α} {value : α}
    (h : ((takeWord a data).bind fun first => (takeWord b first.2).bind fun second =>
      some (wrap first.1 second.1, second.2)) = some (value, rest)) :
    ∃ first second, value = wrap first second ∧
      data = wordBytes a first ++ wordBytes b second ++ rest := by
  obtain ⟨⟨first, left⟩, hfirst, hsecond⟩ := Option.bind_eq_some_iff.1 h
  obtain ⟨second, hword, rfl⟩ := exists_of_bind_wrap hsecond
  refine ⟨first, second, rfl, ?_⟩
  rw [eq_append_of_takeWord hfirst, List.append_assoc]
  exact congrArg (wordBytes a first ++ ·) (eq_append_of_takeWord hword)

namespace Payload

/-- The bytes behind a tag begin with those of a payload, and `rest` is what follows. -/
structure Begins (p : Payload) (tag : Tag) (data rest : List UInt8) : Prop where
  tag_eq : p.tag = tag
  storable : p.Storable
  data_eq : data = p.bytes ++ rest

theorem begins_of_take? {tag : Tag} {data rest : List UInt8} {p : Payload}
    (h : take? tag data = some (p, rest)) : p.Begins tag data rest := by
  cases tag with
  | null =>
    cases h
    exact ⟨rfl, trivial, rfl⟩
  | text | bool =>
    obtain ⟨byte, hread, rfl⟩ := exists_of_bind_wrap h
    exact ⟨rfl, trivial, eq_append_of_takeByte hread⟩
  | span | ascii =>
    obtain ⟨bytes, hread, rfl⟩ := exists_of_bind_wrap h
    obtain ⟨hlt, hdata⟩ := eq_append_of_takeSpan hread
    exact ⟨rfl, hlt, hdata⟩
  | integer kind =>
    obtain ⟨bits, hread, rfl⟩ := exists_of_bind_wrap h
    exact ⟨rfl, trivial, eq_append_of_takeWord hread⟩
  | char | float32 | float64 | date =>
    obtain ⟨word, hread, rfl⟩ := exists_of_bind_wrap h
    exact ⟨rfl, trivial, eq_append_of_takeWord hread⟩
  | instant | instantUtc | time | duration | enum | signedEnum =>
    obtain ⟨first, second, rfl, hdata⟩ := eq_append_of_two h
    exact ⟨rfl, trivial, hdata⟩
  | decimal =>
    obtain ⟨⟨flags, afterFlags⟩, hflags, h⟩ := Option.bind_eq_some_iff.1 h
    obtain ⟨⟨low, afterLow⟩, hlow, h⟩ := Option.bind_eq_some_iff.1 h
    obtain ⟨mid, high, rfl, hrest⟩ := eq_append_of_two h
    refine ⟨rfl, trivial, ?_⟩
    rw [eq_append_of_takeWord hflags, eq_append_of_takeWord hlow, hrest]
    simp only [bytes, List.append_assoc]
  | identifier =>
    obtain ⟨⟨taken, left⟩, htake, h⟩ := Option.bind_eq_some_iff.1 h
    obtain ⟨id, hid, h⟩ := Option.bind_eq_some_iff.1 h
    cases h
    have hbytes : id.bytes = taken := by
      rw [Identifier.ofBytes?, dif_pos (length_of_takeBytes htake)] at hid
      cases hid
      rfl
    refine ⟨rfl, trivial, ?_⟩
    rw [bytes, hbytes]
    exact eq_append_of_takeBytes htake
  | unmanaged =>
    obtain ⟨⟨token, left⟩, htoken, h⟩ := Option.bind_eq_some_iff.1 h
    obtain ⟨raw, hraw, rfl⟩ := exists_of_bind_wrap h
    obtain ⟨hlt, hdata⟩ := eq_append_of_takeSpan hraw
    refine ⟨rfl, hlt, ?_⟩
    rw [eq_append_of_takeWord htoken, hdata, bytes, List.append_assoc]
  | key | cut => cases h

/-- A payload is read exactly where its bytes stand. -/
theorem take?_eq_some_iff {tag : Tag} {data rest : List UInt8} {p : Payload} :
    take? tag data = some (p, rest) ↔ p.Begins tag data rest := by
  refine ⟨begins_of_take?, fun ⟨htag, hstorable, hdata⟩ => ?_⟩
  rw [← htag, hdata]
  exact take?_bytes p hstorable rest

end Payload
end Logbook.Record
