import Logbook.Record.Basic
import Logbook.Calendar.Stamp
import Logbook.Number.IntegerText
set_option autoImplicit false

/-!
# What payloads look like

A payload is presented as text, as raw bytes for a formatter, or not at all when it stands for
nothing, such as a day beyond the calendar. Codes that are no character show the replacement
character, and an index beyond the string table shows nothing.

`Presentation.write` puts it on an output. A formatter that breaks off is as good as none: what it
wrote is taken back and the bytes are shown in hexadecimal. A decimal that is too long for its format
is not caught: `present` gives its text all the same, `tryPresent` nothing.
-/
namespace Logbook.Render

open Calendar Number Record

structure Context where
  registry : Registry
  strings : Array String
  nullDisplay : String

inductive Presentation where
  | text (s : String)
  | raw (formatter : Option Formatter) (bytes : List UInt8) (format : Option String)
  | unreadable

def charOfCode (code : Nat) : Char :=
  if code.isValidChar then Char.ofNat code else '\uFFFD'

def asciiChar (byte : UInt8) : Char :=
  if byte < 128 then Char.ofNat byte.toNat else '?'

/-- The decimal that a payload holds. A scale beyond 28 is brought back by dropping digits, and the
last digit goes up if what was dropped is at least five. -/
def decimalOf (flags low mid high : BitVec 32) : Decimal96 :=
  let negative := flags.getLsbD 31
  let scale := flags.toNat / 0x1_0000 % 32
  let coefficient := low.toNat + 0x1_00000000 * mid.toNat + 0x1_00000000_00000000 * high.toNat
  have hc : coefficient < 0x1_00000000_00000000_00000000 := by
    have hl := low.isLt
    have hm := mid.isLt
    have hh := high.isLt
    simp only [coefficient]
    omega
  if h : scale ≤ maxScale then ⟨negative, coefficient, scale, hc, h⟩
  else
    let power := Nat.pow 10 (scale - maxScale)
    let shorter := coefficient / power + if 5 ≤ coefficient % power then 1 else 0
    have hs : shorter < 0x1_00000000_00000000_00000000 := by
      have hp : 10 ≤ power := by
        have h1 : scale - maxScale = (scale - maxScale - 1) + 1 := by omega
        have h2 : 0 < 10 ^ (scale - maxScale - 1) := Nat.pow_pos (by decide)
        simp only [power, Nat.pow_eq]
        rw [h1, Nat.pow_succ]
        omega
      have hd : coefficient / power ≤ coefficient / 10 :=
        Nat.div_le_div_left hp (by decide)
      simp only [shorter]
      split <;> omega
    ⟨negative, shorter, maxScale, hs, by decide⟩

def enumText (ctx : Context) (signed : Bool) (token bits : BitVec 64) (format : Option String) :
    List Char :=
  let number : Int := if signed then bits.toInt else bits.toNat
  let named :=
    match ctx.registry.enumName? token bits with
    | some name => name.toList
    | none => integer number
  match format with
  | some "D" | some "d" => integer number
  | some format =>
    match format.toList with
    | 'X' :: _ | 'x' :: _ => integerFormat 64 number (some format)
    | _ => named
  | none => named

def stampText (stamp : Option Stamp) (format : Option String) : Presentation :=
  match stamp with
  | some stamp => .text (String.ofList (stamp.format format))
  | none => .unreadable

def present (ctx : Context) (format : Option String) : Payload → Presentation
  | .null => .text ctx.nullDisplay
  | .text index => .text (ctx.strings[index.toNat]?.getD "")
  | .span bytes => .text (String.ofList (Text.Utf8.validPrefix bytes))
  | .ascii bytes => .text (String.ofList (bytes.map asciiChar))
  | .bool byte => .text (if byte ≠ 0 then "true" else "false")
  | .char code => .text (String.singleton (charOfCode code.toNat))
  | .integer kind bits => .text (String.ofList (integerFormat kind.width (kind.value bits) format))
  | .float32 bits =>
    .text (String.ofList ((Floating.ofBits binary32 bits.toNat).format binary32 format))
  | .float64 bits =>
    .text (String.ofList ((Floating.ofBits binary64 bits.toNat).format binary64 format))
  | .decimal flags low mid high =>
    .text (String.ofList ((decimalOf flags low mid high).format format))
  | .identifier id => .text (String.ofList (id.format format))
  | .instant utc seconds nanos =>
    stampText ((Instant.ofSeconds? seconds.toInt nanos.toNat).map
      fun i => if utc then .utc i else .zoneless i) format
  | .date number => stampText ((Date.ofNumber? number.toInt).map .date) format
  | .time second nanos => stampText ((Time.ofParts? second.toNat nanos.toNat).map .time) format
  | .duration seconds nanos => .text (String.ofList (durationText seconds.toInt nanos.toInt))
  | .enum signed token bits => .text (String.ofList (enumText ctx signed token bits format))
  | .unmanaged token raw => .raw (ctx.registry.formatter? token) raw format

def tryPresent (ctx : Context) (format : Option String) : Payload → Option Presentation
  | .decimal flags low mid high =>
    ((decimalOf flags low mid high).tryFormat format).map fun text => .text (String.ofList text)
  | p => some (present ctx format p)

def hexDump (raw : List UInt8) : String :=
  String.ofList ("Unmanaged(0x".toList ++
    raw.flatMap (fun b => zeroPad 2 (hexadecimal true b.toNat)) ++ [')'])

inductive Progress where
  | done
  | full
  | unreadable
  deriving DecidableEq

def Progress.ofFit (fitted : Bool) : Progress := if fitted then .done else .full

variable {e : Text.Encoding}

/-- Writes text; what of a value that did not fit is left is for the caller to take back. -/
def writeText (form : Form) (text : String) (out : Output e) : Output e × Progress :=
  let (out, fitted) := out.put form text
  (out, .ofFit fitted)

def Presentation.write (form : Form) (out : Output e) : Presentation → Output e × Progress
  | .text s => writeText form s out
  | .raw none bytes _ => writeText form (hexDump bytes) out
  | .raw (some formatter) bytes format =>
    match (formatter bytes format).run form out with
    | (out, .complete) => (out, .done)
    | (out, .incomplete) => (out, .full)
    | (after, .aborted) => writeText form (hexDump bytes) (after.rewind out.length)
  | .unreadable => (out, .unreadable)

end Logbook.Render
