import Logbook.Render.Walk
set_option autoImplicit false

/-!
# The fields of a record

The fields noted by a pass are written after a separator as one JSON object. Nulls, booleans,
integers, decimals and finite floating-point numbers stand for themselves; the text of any other
value is a string. Formats are ignored. An offset at which no field starts is passed over, and a
value whose payload is cut short has no text.

A block that does not fit is taken back whole, and the suffix marks the cut.
-/
namespace Logbook
namespace Render

open Record Number

variable {e : Text.Encoding}

def andThen (written : Output e × Bool) (next : Output e → Output e × Bool) : Output e × Bool :=
  match written with
  | (out, true) => next out
  | (out, false) => (out, false)

inductive FieldForm where
  | null
  | bare
  | quoted
  deriving DecidableEq

/-- How a value with the given tag stands in an object; of a floating-point number the payload that
begins `data` decides. -/
def fieldFormOf (tag : Tag) (data : List UInt8) : FieldForm :=
  match tag with
  | .null => .null
  | .float32 =>
    match takeWord 4 data with
    | some (bits, _) => if (Floating.ofBits binary32 bits.toNat).isFinite then .bare else .quoted
    | none => .quoted
  | .float64 =>
    match takeWord 8 data with
    | some (bits, _) => if (Floating.ofBits binary64 bits.toNat).isFinite then .bare else .quoted
    | none => .quoted
  | .bool | .integer _ | .decimal => .bare
  | _ => .quoted

structure Field where
  key : String
  tag : Tag
  data : List UInt8

def fieldAt? (strings : Array String) (data : List UInt8) (offset : Nat) : Option Field := do
  let (header, rest) ← Header.take? (data.drop offset)
  if header.tag ≠ .key then none
  let (index, rest) ← takeByte rest
  let key ← strings[index.toNat]?
  let (value, rest) ← Header.take? rest
  return ⟨key, value.tag, rest⟩

def writeValue (ctx : Context) (form : Form) (field : Field) (out : Output e) : Output e × Bool :=
  match Payload.take? field.tag field.data with
  | none => (out, true)
  | some (payload, _) =>
    match (present ctx none payload).write form out with
    | (out, .full) => (out, false)
    | (out, _) => (out, true)

def writeField (ctx : Context) (field : Field) (out : Output e) : Output e × Bool :=
  let keyed := andThen (andThen (out.write "\"") (·.writeQuoted field.key)) (·.write "\": ")
  match fieldFormOf field.tag field.data with
  | .null => andThen keyed (·.write "null")
  | .bare => andThen keyed (writeValue ctx .plain field)
  | .quoted =>
    andThen (andThen (andThen keyed (·.write "\"")) (writeValue ctx .quoted field)) (·.write "\"")

def writeMembers (ctx : Context) (first : Bool) : List Field → Output e → Output e × Bool
  | [], out => (out, true)
  | field :: rest, out =>
    let lead := if first then (out, true) else out.write ", "
    andThen (andThen lead (writeField ctx field)) (writeMembers ctx false rest)

def writeBlock (ctx : Context) (separator : String) (fields : List Field) (out : Output e) :
    Output e × Bool :=
  andThen
    (andThen (andThen (out.write separator) (·.write "\x7b "))
      (writeMembers ctx true fields))
    (·.write " \x7d")

end Render

namespace Record

open Render

variable {e : Text.Encoding}

/-- Renders the fields at the noted offsets after what the output holds, and nothing if none are
noted. Tells whether the block fitted. -/
def renderFields (r : Record) (registry : Registry) (settings : Settings) (fields : FieldList)
    (out : Output e) : Output e × Bool :=
  if fields.offsets.isEmpty then (out, true)
  else
    let found := fields.offsets.toList.filterMap (fieldAt? r.strings r.encoded)
    match writeBlock (r.context registry settings) settings.separator found out with
    | (after, true) => (after, true)
    | (after, false) => ((after.rewind out.length).markCut settings.truncatedSuffix, false)

def toText (r : Record) (registry : Registry) (settings : Settings) : String :=
  let pass := r.render registry settings false {} (Output.unlimited Text.utf8)
  (r.renderFields registry settings pass.fields pass.out).1.text

/-- Fields have no formats, so only the pass over the text can break off. -/
def tryToText (r : Record) (registry : Registry) (settings : Settings) : Option String :=
  (r.tryRender registry settings false {} (Output.unlimited Text.utf8)).map fun _ =>
    r.toText registry settings

end Record
end Logbook
