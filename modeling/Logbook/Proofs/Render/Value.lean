import Logbook.Record.Basic
import Logbook.Proofs.Render.Presentation
import Logbook.Proofs.Text.Utf8
set_option autoImplicit false

/-!
# The text of a value and the text of its entry

A value has a text of its own, which says nothing of bytes. What is read from its entry shows that
text, for all values but the times with a leap second that does not end a minute.
-/
namespace Logbook

open Calendar Number Record Render Text

namespace Record.Value

def shown (registry : Registry) (nullDisplay : String) (format : Option String) :
    Value → List Char
  | .null => nullDisplay.toList
  | .text s | .span s => s.toList
  | .ascii bytes => bytes.map asciiChar
  | .bool b => (if b then "true" else "false").toList
  | .char c => [c]
  | .integer kind bits => integerFormat kind.width (kind.value bits) format
  | .float32 bits => (Floating.ofBits binary32 bits.toNat).format binary32 format
  | .float64 bits => (Floating.ofBits binary64 bits.toNat).format binary64 format
  | .decimal d => d.format format
  | .identifier id => id.format format
  | .instant utc i => (if utc then Stamp.utc i else .zoneless i).format format
  | .date d => (Stamp.date d).format format
  | .time t => (Stamp.time t).format format
  | .duration d => durationText d.seconds d.subsecond
  | .enum type bits => enumText ⟨registry, #[], nullDisplay⟩ type.signed type.token bits format
  | .unmanaged v =>
    match registry.formatter? v.token with
    | some formatter => (formatter v.bytes format).printed.getD (hexDump v.bytes).toList
    | none => (hexDump v.bytes).toList

/-- A leap second comes after the last second of a minute, if there is one. -/
def isReadable : Value → Bool
  | .instant _ i => decide (i.time.nanos < billion ∨ i.time.second % 60 = 59)
  | .time t => decide (t.nanos < billion ∨ t.second % 60 = 59)
  | _ => true

def ofStamp : Stamp → Value
  | .date d => .date d
  | .time t => .time t
  | .zoneless i => .instant false i
  | .utc i => .instant true i

theorem shown_ofStamp (s : Stamp) (registry : Registry) (nullDisplay : String)
    (format : Option String) : (ofStamp s).shown registry nullDisplay format = s.format format := by
  cases s <;> rfl

theorem tableText?_of_takesFormat {v : Value} (h : v.takesFormat = true) :
    v.tableText? = none := by
  cases v with
  | text s => cases h
  | _ => rfl

theorem shown_of_not_takesFormat {v : Value} (h : v.takesFormat = false) (registry : Registry)
    (nullDisplay : String) (format format' : Option String) :
    v.shown registry nullDisplay format = v.shown registry nullDisplay format' := by
  cases v with
  | null | text | span | ascii | bool | char | duration => rfl
  | _ => cases h

end Record.Value

namespace Calendar

theorem Date.number_bounds (d : Date) : -100000000 ≤ d.number ∧ d.number < 100000000 := by
  have hlow : -100000000 ≤ Day.firstOfYear leastYear := by decide
  have hhigh : Day.firstOfYear (greatestYear + 1) ≤ 100000000 := by decide
  have hleast := d.least_le
  have hnext := d.lt_next
  omega

theorem Time.ofParts?_eq (t : Time) :
    Time.ofParts? t.second t.nanos =
      if t.nanos < billion ∨ t.second % 60 = 59 then some t else none :=
  dif_pos ⟨t.second_lt, t.nanos_lt⟩

theorem Instant.ofSeconds?_eq (i : Instant) :
    Instant.ofSeconds? i.seconds i.time.nanos =
      if i.time.nanos < billion ∨ i.time.second % 60 = 59 then some i else none := by
  have hlt := i.time.second_lt
  have hday : i.seconds / 86400 + epochDay = i.date.number := by
    rw [Instant.seconds]
    omega
  have hsecond : (i.seconds % 86400).toNat = i.time.second := by
    rw [Instant.seconds]
    omega
  rw [Instant.ofSeconds?, hday, Date.ofNumber?_number, hsecond]
  simp only [Time.ofParts?_eq]
  split <;> rfl

theorem Time.toNat_nanos_word (t : Time) : (BitVec.ofNat 32 t.nanos).toNat = t.nanos := by
  have hnanos := t.nanos_lt
  rw [billion] at hnanos
  rw [BitVec.toNat_ofNat]
  exact Nat.mod_eq_of_lt (by omega)

theorem Date.ofNumber?_word (d : Date) :
    Date.ofNumber? (BitVec.ofInt 32 d.number).toInt = some d := by
  have hbounds := d.number_bounds
  rw [BitVec.toInt_ofInt_eq_self (by decide) (by omega) (by omega)]
  exact d.ofNumber?_number

theorem Time.ofParts?_words (t : Time) :
    Time.ofParts? (BitVec.ofNat 32 t.second).toNat (BitVec.ofNat 32 t.nanos).toNat =
      if t.nanos < billion ∨ t.second % 60 = 59 then some t else none := by
  have hlt := t.second_lt
  have hsecond : (BitVec.ofNat 32 t.second).toNat = t.second := by
    rw [BitVec.toNat_ofNat]
    exact Nat.mod_eq_of_lt (by omega)
  rw [hsecond, t.toNat_nanos_word, t.ofParts?_eq]

theorem Instant.ofSeconds?_words (i : Instant) :
    Instant.ofSeconds? (BitVec.ofInt 64 i.seconds).toInt (BitVec.ofNat 32 i.time.nanos).toNat =
      if i.time.nanos < billion ∨ i.time.second % 60 = 59 then some i else none := by
  have hlt := i.time.second_lt
  have hdate := i.date.number_bounds
  have hseconds : (BitVec.ofInt 64 i.seconds).toInt = i.seconds := by
    apply BitVec.toInt_ofInt_eq_self (by decide)
    · rw [Instant.seconds, epochDay]
      omega
    · rw [Instant.seconds, epochDay]
      omega
  rw [hseconds, i.time.toNat_nanos_word, i.ofSeconds?_eq]

end Calendar

namespace Render

theorem charOfCode_toNat (c : Char) : charOfCode (BitVec.ofNat 32 c.toNat).toNat = c := by
  have hlt : c.toNat < 2 ^ 32 := c.val.toNat_lt
  have hvalid : c.toNat.isValidChar := c.valid
  rw [BitVec.toNat_ofNat, Nat.mod_eq_of_lt hlt, charOfCode, if_pos hvalid, Char.ofNat_toNat]

theorem decimalOf_payload (d : Decimal96) :
    decimalOf (BitVec.ofNat 32 (Value.decimalFlags d)) (BitVec.ofNat 32 d.coefficient)
        (BitVec.ofNat 32 (d.coefficient / 0x1_00000000))
        (BitVec.ofNat 32 (d.coefficient / 0x1_00000000_00000000)) = d := by
  obtain ⟨negative, coefficient, scale, hc, hs⟩ := d
  have hs' : scale ≤ 28 := hs
  generalize hword : BitVec.ofNat 32 (Value.decimalFlags ⟨negative, coefficient, scale, hc, hs⟩) =
    flags
  have hflags : flags.toNat = (if negative then 0x8000_0000 else 0) + scale * 0x1_0000 := by
    rw [← hword, BitVec.toNat_ofNat, Value.decimalFlags]
    apply Nat.mod_eq_of_lt
    simp only
    split <;> omega
  -- the sign is the top bit, and the scale takes the five lowest bits of the upper half
  have hsign : flags.getLsbD 31 = negative := by
    rw [← BitVec.testBit_toNat, hflags, Nat.testBit_eq_decide_div_mod_eq]
    cases negative <;> simp <;> omega
  have hscale : flags.toNat / 0x1_0000 % 32 = scale := by
    rw [hflags]
    split <;> omega
  have hcoefficient : (BitVec.ofNat 32 coefficient).toNat +
      0x1_00000000 * (BitVec.ofNat 32 (coefficient / 0x1_00000000)).toNat +
      0x1_00000000_00000000 *
        (BitVec.ofNat 32 (coefficient / 0x1_00000000_00000000)).toNat = coefficient := by
    simp only [BitVec.toNat_ofNat]
    omega
  have hle : flags.toNat / 0x1_0000 % 32 ≤ maxScale := by
    rw [hscale]
    exact hs
  rw [decimalOf, dif_pos hle]
  simp only [Decimal96.mk.injEq]
  exact ⟨hsign, hcoefficient, hscale⟩

section Present

variable (ctx : Context) (format : Option String) (index : UInt8)

/-- The entry of a stamp is read back as that stamp, unless it is a leap second that does not end a
minute. -/
theorem present_ofStamp (s : Stamp) :
    present ctx format ((Value.ofStamp s).payload index) =
      stampText (if (Value.ofStamp s).isReadable then some s else none) format := by
  cases s with
  | date d => exact congrArg (fun read => stampText (read.map Stamp.date) format) d.ofNumber?_word
  | time t =>
    rw [Value.ofStamp, Value.payload, present, t.ofParts?_words, Value.isReadable]
    by_cases hr : t.nanos < billion ∨ t.second % 60 = 59
    · rw [if_pos hr, if_pos (decide_eq_true hr), Option.map_some]
    · rw [if_neg hr, if_neg (by simpa using hr), Option.map_none]
  | zoneless i | utc i =>
    rw [Value.ofStamp, Value.payload, present, i.ofSeconds?_words, Value.isReadable]
    by_cases hr : i.time.nanos < billion ∨ i.time.second % 60 = 59
    · rw [if_pos hr, if_pos (decide_eq_true hr)]
      rfl
    · rw [if_neg hr, if_neg (by simpa using hr)]
      rfl

theorem shown?_ofStamp (s : Stamp) :
    (present ctx format ((Value.ofStamp s).payload index)).shown? =
      if (Value.ofStamp s).isReadable then
        some ((Value.ofStamp s).shown ctx.registry ctx.nullDisplay format) else none := by
  rw [present_ofStamp, Value.shown_ofStamp]
  cases (Value.ofStamp s).isReadable with
  | false => rfl
  | true => simp [stampText, Presentation.shown?]

theorem present_duration (d : Duration) :
    present ctx format ((Value.duration d).payload index) =
      .text (String.ofList (durationText d.seconds d.subsecond)) := by
  have hleast := d.least_le
  have hgreatest := d.le_greatest
  have hbillion : ((billion : Nat) : Int) = 1000000000 := rfl
  -- both parts are rounded toward zero, so their sizes are those of the parts of the size
  have hdiv : (d.nanoseconds.tdiv 1000000000).natAbs = d.nanoseconds.natAbs / 1000000000 :=
    Int.natAbs_tdiv _ _
  have hmod : (d.nanoseconds.tmod 1000000000).natAbs = d.nanoseconds.natAbs % 1000000000 :=
    Int.natAbs_tmod _ _
  rw [maxMilliseconds] at hleast hgreatest
  have hseconds : (BitVec.ofInt 64 d.seconds).toInt = d.seconds := by
    rw [Duration.seconds, hbillion]
    exact BitVec.toInt_ofInt_eq_self (by decide) (by omega) (by omega)
  have hsub : (BitVec.ofInt 32 d.subsecond).toInt = d.subsecond := by
    rw [Duration.subsecond, hbillion]
    exact BitVec.toInt_ofInt_eq_self (by decide) (by omega) (by omega)
  rw [Value.payload, present, hseconds, hsub]

/-- What is read from the entry of a value shows the value's own text. -/
theorem present_payload (v : Value)
    (htext : ∀ s, v.tableText? = some s → ctx.strings[index.toNat]? = some s) :
    (present ctx format (v.payload index)).shown? =
      if v.isReadable then some (v.shown ctx.registry ctx.nullDisplay format) else none := by
  cases v with
  | text s =>
    rw [Value.payload, present, htext s rfl]
    rfl
  | span s =>
    have hs := Utf8.validPrefix_encodeChars s.toList
    rw [Value.payload, present, Utf8.bytes, hs, String.ofList_toList]
    rfl
  | ascii bytes => simp [Value.payload, present, Presentation.shown?, Value.shown, Value.isReadable]
  | bool b => cases b <;> rfl
  | char c =>
    rw [Value.payload, present, charOfCode_toNat]
    simp [Presentation.shown?, Value.shown, Value.isReadable]
  | decimal d =>
    rw [Value.payload, present, decimalOf_payload]
    simp [Presentation.shown?, Value.shown, Value.isReadable]
  | instant utc i =>
    cases utc with
    | false => exact shown?_ofStamp ctx format index (.zoneless i)
    | true => exact shown?_ofStamp ctx format index (.utc i)
  | date d => exact shown?_ofStamp ctx format index (.date d)
  | time t => exact shown?_ofStamp ctx format index (.time t)
  | duration d =>
    rw [present_duration]
    simp [Presentation.shown?, Value.shown, Value.isReadable]
  | enum type bits =>
    simp [Value.payload, present, Presentation.shown?, Value.shown, Value.isReadable, enumText]
  | unmanaged v =>
    rw [Value.payload, present, Value.shown]
    cases ctx.registry.formatter? v.token <;> rfl
  | _ => simp [Value.payload, present, Presentation.shown?, Value.shown, Value.isReadable]

end Present

end Render
end Logbook
