import Logbook.Record.Basic
import Logbook.Proofs.Record.Stored
import Logbook.Proofs.Segment
import Logbook.Proofs.Text.Encoding
set_option autoImplicit false

/-!
# What an append does

Everything a producer adds is one of two things, a value or a key with its value. Whether it fits is
decided beforehand, by the bytes and the strings that it takes. If it fits, its entry and its
strings go after those already there; if not, the record is cut, and of a span that stands alone
the part that fits comes before the cut.
-/
namespace Logbook

open Record Text

namespace Record

inductive Addition where
  | value (v : Value) (format : Option String)
  | field (key : String) (v : Value)

namespace Addition

def format? : Addition → Option String
  | .value v format => if v.takesFormat then format else none
  | .field _ _ => none

def size : Addition → Nat
  | .value v format => v.size + ((format? (.value v format)).toList.length)
  | .field _ v => 2 + v.size

/-- Strings added to the table: of a value its format and its text, of a field its key before. -/
def strings : Addition → List String
  | .value v format => (format? (.value v format)).toList ++ v.tableText?.toList
  | .field key v => key :: v.tableText?.toList

def slots (a : Addition) : Nat := a.strings.length

def stored (index : UInt8) : Addition → Stored
  | .value v format =>
    let format := format? (.value v format)
    .value ⟨format.map fun _ => index, v.payload (if format.isSome then index + 1 else index)⟩
  | .field _ v => .field index ⟨none, v.payload (index + 1)⟩

/-- What is kept of an addition that does not fit into `room` bytes: of a span that stands alone as
much as fits after its header, cut between characters, and of all else nothing. -/
def part? (room : Nat) : Addition → Option Stored
  | .value (.span s) _ =>
    let kept := utf8.fit (room - spanHeader) s.toList
    if kept = [] then none else some (.value ⟨none, .span (utf8.encodeChars kept)⟩)
  | .value (.ascii bytes) _ =>
    let kept := bytes.take (room - spanHeader)
    if kept = [] then none else some (.value ⟨none, .ascii kept⟩)
  | _ => none

theorem length_bytes_stored (a : Addition) (index : UInt8) :
    (a.stored index).bytes.length = a.size := by
  cases a with
  | value v format =>
    have hp := fun i => v.length_bytes_payload i
    simp only [stored, Stored.bytes, StoredValue.bytes, size, List.length_append]
    cases hf : format? (.value v format) with
    | none =>
      simp only [Option.map_none, Header.bytes, List.length_singleton, Option.isSome_none,
        Bool.false_eq_true, ↓reduceIte, Option.toList_none, List.length_nil, hp]
      rfl
    | some f =>
      have h1 := hp (index + 1)
      simp only [Option.map_some, Header.bytes, Option.isSome_some, ↓reduceIte,
        Option.toList_some, List.length_cons, List.length_nil]
      omega
  | field key v =>
    have h1 := v.length_bytes_payload (index + 1)
    simp only [stored, Stored.bytes, StoredValue.bytes, size, Header.bytes, List.length_append,
      List.length_singleton]
    omega

end Addition

section Fields

variable (r : Record) (bytes : List UInt8) (strings : List String)

@[simp] theorem position_put : (r.put bytes).position = r.position + bytes.length := rfl
@[simp] theorem segmentSize_put : (r.put bytes).segment.size = r.segment.size := rfl
@[simp] theorem strings_put : (r.put bytes).strings = r.strings := rfl
@[simp] theorem stringCapacity_put : (r.put bytes).stringCapacity = r.stringCapacity := rfl
@[simp] theorem truncated_put : (r.put bytes).truncated = r.truncated := rfl

@[simp] theorem position_intern : (r.intern strings).position = r.position := rfl
@[simp] theorem segment_intern : (r.intern strings).segment = r.segment := rfl
@[simp] theorem encoded_intern : (r.intern strings).encoded = r.encoded := rfl
@[simp] theorem stringCapacity_intern :
    (r.intern strings).stringCapacity = r.stringCapacity := rfl
@[simp] theorem truncated_intern : (r.intern strings).truncated = r.truncated := rfl
@[simp] theorem intern_nil : r.intern [] = r := by simp [intern]

theorem toList_strings_intern :
    (r.intern strings).strings.toList = r.strings.toList ++ strings := by
  simp [intern]

theorem size_strings_intern : (r.intern strings).strings.size = r.strings.size + strings.length := by
  rw [← Array.length_toList, toList_strings_intern, List.length_append, Array.length_toList]

theorem length_encoded : r.encoded.length = r.position := r.segment.length_firstBytes r.position

theorem encoded_put : (r.put bytes).encoded = r.encoded ++ bytes :=
  r.segment.firstBytes_write r.position bytes

end Fields

/-! ## Cutting a record -/

theorem truncate_of_truncated {r : Record} (h : r.truncated = true) : r.truncate = r := by
  simp [truncate, h]

theorem truncated_truncate (r : Record) : r.truncate.truncated = true := by
  unfold truncate
  split
  · assumption
  · split <;> rfl

theorem strings_truncate (r : Record) : r.truncate.strings = r.strings := by
  unfold truncate
  split
  · rfl
  · split <;> rfl

theorem stringCapacity_truncate (r : Record) : r.truncate.stringCapacity = r.stringCapacity := by
  unfold truncate
  split
  · rfl
  · split <;> rfl

theorem segmentSize_truncate (r : Record) : r.truncate.segment.size = r.segment.size := by
  unfold truncate
  split
  · rfl
  · split <;> rfl

def marker (room : Nat) : List UInt8 := if 0 < room then [Tag.cut.code] else []

theorem encoded_truncate {r : Record} (h : r.truncated = false) :
    r.truncate.encoded = r.encoded ++ marker r.remaining := by
  rw [truncate, h, marker, remaining]
  simp only [Bool.false_eq_true, ↓reduceIte]
  by_cases hp : r.position < r.segment.size
  · rw [if_pos hp, if_pos (by omega)]
    exact r.encoded_put [Tag.cut.code]
  · rw [if_neg hp, if_neg (by omega), List.append_nil]
    rfl

/-! ## Adding to a record -/

def extend (r : Record) : Addition → Record
  | .value v format => r.append v format
  | .field key v => r.appendField key v

def extendAll (r : Record) (additions : List Addition) : Record := additions.foldl extend r

def Fits (r : Record) (a : Addition) : Prop :=
  a.size ≤ r.remaining ∧ r.strings.size + a.slots ≤ r.stringCapacity

theorem hasRoom_iff_fits (r : Record) (a : Addition) :
    r.hasRoom a.size a.slots = true ↔ r.Fits a := by
  simp [hasRoom, Fits]

def putPart (r : Record) : Option Stored → Record
  | some s => r.put s.bytes
  | none => r

section Spans

variable {r : Record} {wrap : List UInt8 → Payload} {bytes : List UInt8} {fit : Nat → Nat}

theorem appendSpan_of_fits (ht : r.truncated = false)
    (h : spanHeader + bytes.length ≤ r.remaining) :
    r.appendSpan wrap bytes fit = r.put (Stored.value ⟨none, wrap bytes⟩).bytes := by
  have hkept : 0 < bytes.length ∨ bytes.length = 0 := (Nat.eq_zero_or_pos _).symm
  rw [appendSpan, ht]
  simp only [Bool.false_eq_true, ↓reduceIte, h, true_and, hkept, not_true_eq_false,
    Nat.lt_irrefl, or_self, List.take_length]
  rfl

theorem appendSpan_of_not_fits (ht : r.truncated = false)
    (h : ¬ spanHeader + bytes.length ≤ r.remaining) (hfit : ∀ room, fit room ≤ room) :
    r.appendSpan wrap bytes fit =
      (r.putPart (if fit (r.remaining - spanHeader) = 0 then none
        else some (.value ⟨none, wrap (bytes.take (fit (r.remaining - spanHeader)))⟩))).truncate := by
  have hle := hfit (r.remaining - spanHeader)
  rw [appendSpan, ht]
  simp only [Bool.false_eq_true, ↓reduceIte, h]
  by_cases hzero : fit (r.remaining - spanHeader) = 0
  · -- nothing is kept, whether or not there is room for a header
    have hlen : ¬ (spanHeader ≤ r.remaining ∧ bytes.length = 0) := by omega
    have hcut : ¬ spanHeader ≤ r.remaining ∨ 0 < bytes.length := by omega
    simp only [hzero, ite_self, Nat.add_zero, Nat.lt_irrefl, false_or, hlen, hcut, ↓reduceIte,
      putPart]
  · have hlt : spanHeader < r.remaining := by omega
    have hfits : spanHeader + fit (r.remaining - spanHeader) ≤ r.remaining := by omega
    have hcut : fit (r.remaining - spanHeader) < bytes.length := by omega
    have hpos : 0 < fit (r.remaining - spanHeader) := Nat.pos_of_ne_zero hzero
    simp only [hlt, hfits, hpos, hzero, hcut, true_and, true_or, not_true_eq_false, or_true,
      ↓reduceIte, putPart]
    rfl

theorem fittingBytes_eq (room : Nat) (cs : List Char) :
    fittingBytes room cs = (utf8.encodeChars (utf8.fit room cs)).length := by
  induction cs generalizing room with
  | nil => rfl
  | cons c cs ih =>
    rw [fittingBytes, Encoding.fit]
    split
    · rw [Encoding.encodeChars_cons, List.length_append, ih]
    · rfl

theorem fittingBytes_le (cs : List Char) (room : Nat) : fittingBytes room cs ≤ room := by
  rw [fittingBytes_eq]
  exact (utf8.fit_isLongest room cs).size_le

theorem take_fittingBytes (room : Nat) (cs : List Char) :
    (utf8.encodeChars cs).take (fittingBytes room cs) = utf8.encodeChars (utf8.fit room cs) := by
  obtain ⟨left, hleft⟩ := (utf8.fit_isLongest room cs).begins
  have hsplit : utf8.encodeChars cs =
      utf8.encodeChars (utf8.fit room cs) ++ utf8.encodeChars left := by
    rw [← Encoding.encodeChars_append, hleft]
  rw [fittingBytes_eq, hsplit, List.take_left]

theorem fittingBytes_eq_zero_iff (room : Nat) (cs : List Char) :
    fittingBytes room cs = 0 ↔ utf8.fit room cs = [] := by
  rw [fittingBytes_eq]
  constructor
  · intro h
    cases hf : utf8.fit room cs with
    | nil => rfl
    | cons c rest =>
      have hc := Encoding.encode_length_pos utf8_lawful c
      rw [hf, Encoding.encodeChars_cons, List.length_append] at h
      omega
  · intro h
    rw [h]
    rfl

end Spans

def Value.isCopied : Value → Bool
  | .span _ | .ascii _ => true
  | _ => false

theorem append_eq_appendEntry {v : Value} (h : v.isCopied = false) (r : Record)
    (format : Option String) : r.append v format = r.appendEntry v format := by
  cases v with
  | span s => cases h
  | ascii bytes => cases h
  | _ => rfl

theorem Addition.part?_eq_none {v : Value} (h : v.isCopied = false) (room : Nat)
    (format : Option String) : part? room (.value v format) = none := by
  cases v with
  | span s => cases h
  | ascii bytes => cases h
  | _ => rfl

theorem appendEntry_eq {r : Record} (ht : r.truncated = false) (v : Value)
    (format : Option String) :
    r.appendEntry v format =
      if r.hasRoom (Addition.value v format).size (Addition.value v format).slots then
        (r.put ((Addition.value v format).stored r.nextIndex).bytes).intern
          (Addition.value v format).strings
      else r.truncate := by
  have hone : ∀ f : Option String, (if f.isSome then 1 else 0) = f.toList.length := by
    intro f
    cases f <;> rfl
  have hslots : v.slots + (Addition.value v format).format?.toList.length =
      (Addition.value v format).slots := by
    rw [Addition.slots, Addition.strings, List.length_append, v.slots_eq, Nat.add_comm]
  rw [appendEntry, ht]
  simp only [Bool.false_eq_true, ↓reduceIte, hone]
  rw [← hslots]
  rfl

theorem appendField_eq {r : Record} (ht : r.truncated = false) (key : String) (v : Value) :
    r.appendField key v =
      if r.hasRoom (Addition.field key v).size (Addition.field key v).slots then
        (r.put ((Addition.field key v).stored r.nextIndex).bytes).intern
          (Addition.field key v).strings
      else r.truncate := by
  have hslots : (Addition.field key v).slots = 1 + v.slots := by
    rw [Addition.slots, Addition.strings, List.length_cons, v.slots_eq, Nat.add_comm]
  have hbytes : (Header.mk .key none).bytes ++ [r.nextIndex] ++
      entryBytes v none (r.nextIndex + 1) = ((Addition.field key v).stored r.nextIndex).bytes := by
    rw [List.append_assoc]
    rfl
  rw [appendField, ht, hslots, hbytes]
  rfl

theorem extend_of_truncated {r : Record} (h : r.truncated = true) (a : Addition) : r.extend a = r := by
  cases a with
  | value v format => cases v <;> simp [extend, append, appendSpan, appendEntry, h]
  | field key v => simp [extend, appendField, h]

/-- What fits is stored: its entry after the entries, its strings after the strings. -/
theorem extend_of_fits {r : Record} (ht : r.truncated = false) {a : Addition} (h : r.Fits a) :
    r.extend a = (r.put (a.stored r.nextIndex).bytes).intern a.strings := by
  have hroom := (r.hasRoom_iff_fits a).2 h
  cases a with
  | value v format =>
    cases hv : v.isCopied with
    | false => rw [extend, append_eq_appendEntry hv, appendEntry_eq ht, if_pos hroom]
    | true =>
      cases v with
      | span s =>
        have hs : r.appendSpan .span (Utf8.bytes s) (fun room => fittingBytes room s.toList) =
            r.put (Stored.value ⟨none, .span (Utf8.bytes s)⟩).bytes := appendSpan_of_fits ht h.1
        rw [extend, append, hs]
        exact (intern_nil _).symm
      | ascii bytes =>
        have hs : r.appendSpan .ascii bytes (fun room => room) =
            r.put (Stored.value ⟨none, .ascii bytes⟩).bytes := appendSpan_of_fits ht h.1
        rw [extend, append, hs]
        exact (intern_nil _).symm
      | _ => cases hv
  | field key v => rw [extend, appendField_eq ht, if_pos hroom]

/-- What does not fit cuts the record, after the part of a span that fits. -/
theorem extend_of_not_fits {r : Record} (ht : r.truncated = false)
    (hs : r.strings.size ≤ r.stringCapacity) {a : Addition} (h : ¬ r.Fits a) :
    r.extend a = (r.putPart (a.part? r.remaining)).truncate := by
  have hroom : ¬ r.hasRoom a.size a.slots = true := fun hr => h ((r.hasRoom_iff_fits a).1 hr)
  cases a with
  | value v format =>
    cases hv : v.isCopied with
    | false =>
      rw [extend, append_eq_appendEntry hv, appendEntry_eq ht, if_neg hroom,
        Addition.part?_eq_none hv]
      rfl
    | true =>
      cases v with
      | span s =>
        have hbytes : ¬ spanHeader + (Utf8.bytes s).length ≤ r.remaining :=
          fun hle => h ⟨hle, hs⟩
        have htake : (Utf8.bytes s).take (fittingBytes (r.remaining - spanHeader) s.toList) =
            utf8.encodeChars (utf8.fit (r.remaining - spanHeader) s.toList) :=
          take_fittingBytes (r.remaining - spanHeader) s.toList
        rw [extend, append, appendSpan_of_not_fits ht hbytes (fittingBytes_le s.toList), htake]
        simp only [fittingBytes_eq_zero_iff, Addition.part?]
      | ascii bytes =>
        have hbytes : ¬ spanHeader + bytes.length ≤ r.remaining := fun hle => h ⟨hle, hs⟩
        have hnil : bytes.take (r.remaining - spanHeader) = [] ↔
            r.remaining - spanHeader = 0 := by
          rw [List.take_eq_nil_iff]
          constructor
          · intro hor
            rcases hor with hz | hb
            · exact hz
            · rw [hb, List.length_nil] at hbytes
              omega
          · exact Or.inl
        rw [extend, append, appendSpan_of_not_fits ht hbytes fun room => Nat.le_refl room]
        simp only [Addition.part?, hnil]
      | _ => cases hv
  | field key v =>
    rw [extend, appendField_eq ht, if_neg hroom]
    rfl

end Record
end Logbook
