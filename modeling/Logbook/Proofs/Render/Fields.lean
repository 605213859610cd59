import Logbook.Render.Fields
import Logbook.Proofs.Render.Walk
set_option autoImplicit false

/-!
# The text of some fields

The block of a record's fields is one text, made of the texts of the fields. It is written as a
whole or, if it does not fit, not at all, and then the mark goes to what was there before.
-/
namespace Logbook

open Record Render Text

namespace Output

variable {e : Encoding}

/-- A way to say what writing adds that goes from the parts of a block to the whole. -/
structure Compositional (W : (Output e → Output e × Bool) → List Char → Prop) : Prop where
  nil : W (fun out => (out, true)) []
  put : ∀ form text, W (fun out => out.put form text) (form.image text.toList)
  andThen : ∀ {first second a b}, W first a → W second b →
    W (fun out => Render.andThen (first out) second) (a ++ b)

theorem compositional_writes : Compositional (e := e) Writes where
  nil := writes_nil
  put := writes_put
  andThen ha hb := ha.seq hb fun _ => rfl

def WritesGivenRoom (w : Output e → Output e × Bool) (cs : List Char) : Prop :=
  ∀ out, out.hasRoom (e.encodeChars cs).length = true → w out = (out.add cs, true)

theorem compositional_writesGivenRoom : Compositional (e := e) WritesGivenRoom where
  nil := writes_nil.of_hasRoom
  put form text := (writes_put form text).of_hasRoom
  andThen {first second a b} ha hb out hroom := by
    rw [Encoding.encodeChars_append, List.length_append] at hroom
    have hfirst := ha out (hasRoom_of_le (Nat.le_add_right _ _) hroom)
    rw [← hasRoom_add] at hroom
    have hsecond := hb (out.add a) hroom
    simp only [hfirst, Render.andThen, hsecond, add_add]

end Output

namespace Render

def Field.valueText (ctx : Context) (field : Field) : List Char :=
  match Payload.take? field.tag field.data with
  | some (payload, _) => (present ctx none payload).shown?.getD []
  | none => []

def Field.text (ctx : Context) (field : Field) : List Char :=
  "\"".toList ++ Form.quoted.image field.key.toList ++ "\": ".toList ++
    match fieldFormOf field.tag field.data with
    | .null => "null".toList
    | .bare => field.valueText ctx
    | .quoted => "\"".toList ++ Form.quoted.image (field.valueText ctx) ++ "\"".toList

def joined (first : Bool) : List (List Char) → List Char
  | [] => []
  | text :: rest => (if first then [] else ", ".toList) ++ text ++ joined false rest

def blockText (ctx : Context) (separator : String) (fields : List Field) : List Char :=
  separator.toList ++ "\x7b ".toList ++ joined true (fields.map (Field.text ctx)) ++ " \x7d".toList

variable {e : Encoding} {ctx : Context}

theorem writes_writeValue (hregistry : ctx.registry.All Script.Sound) (form : Form)
    (field : Field) :
    Output.Writes (fun out : Output e => writeValue ctx form field out)
      (form.image (field.valueText ctx)) := by
  rw [Field.valueText]
  cases htake : Payload.take? field.tag field.data with
  | none =>
    have hvalue : ∀ out : Output e, writeValue ctx form field out = (out, true) := by
      intro out
      rw [writeValue, htake]
    rw [funext hvalue, Form.image_nil]
    exact Output.writes_nil
  | some taken =>
    obtain ⟨payload, rest⟩ := taken
    have hp : (present ctx none payload).Sound := present_sound hregistry none payload
    have hvalue : ∀ out : Output e, writeValue ctx form field out =
        (((present ctx none payload).write form out).1,
          decide (((present ctx none payload).write form out).2 ≠ .full)) := by
      intro out
      simp only [writeValue, htake]
      generalize (present ctx none payload).write form out = written
      obtain ⟨after, progress⟩ := written
      cases progress <;> rfl
    rw [funext hvalue]
    exact Presentation.writes_write hp form

theorem writeValue_of_hasRoom (hregistry : ctx.registry.All Script.Succeeds) (form : Form)
    (field : Field) :
    Output.WritesGivenRoom (fun out : Output e => writeValue ctx form field out)
      (form.image (field.valueText ctx)) := by
  intro out hroom
  rw [Field.valueText] at hroom ⊢
  cases htake : Payload.take? field.tag field.data with
  | none => simp only [writeValue, htake, Form.image_nil, Output.add_nil]
  | some taken =>
    obtain ⟨payload, rest⟩ := taken
    have hpresent := present_all hregistry none payload
    simp only [htake] at hroom
    simp only [writeValue, htake]
    cases hshown : (present ctx none payload).shown? with
    | none =>
      rw [Presentation.write_of_shown?_none hshown, Option.getD_none, Form.image_nil,
        Output.add_nil]
    | some cs =>
      rw [hshown, Option.getD_some] at hroom
      rw [Presentation.write_succeeds_of_hasRoom hpresent hshown hroom, Option.getD_some]

section Compositional

variable {W : (Output e → Output e × Bool) → List Char → Prop} (hW : Output.Compositional W)
  (hvalue : ∀ form field,
    W (fun out => writeValue ctx form field out) (form.image (field.valueText ctx)))
include hW hvalue

theorem composes_writeField (field : Field) :
    W (fun out => writeField ctx field out) (field.text ctx) := by
  have hkeyed : W (fun out =>
      andThen (andThen (out.write "\"") (·.writeQuoted field.key)) (·.write "\": "))
      ("\"".toList ++ Form.quoted.image field.key.toList ++ "\": ".toList) :=
    hW.andThen (hW.andThen (hW.put .plain "\"") (hW.put .quoted field.key)) (hW.put .plain "\": ")
  rw [Field.text]
  cases hform : fieldFormOf field.tag field.data with
  | null =>
    simp only [writeField, hform]
    exact hW.andThen hkeyed (hW.put .plain "null")
  | bare =>
    simp only [writeField, hform]
    exact hW.andThen hkeyed (hvalue .plain field)
  | quoted =>
    simp only [writeField, hform, ← List.append_assoc]
    exact hW.andThen (hW.andThen (hW.andThen hkeyed (hW.put .plain "\"")) (hvalue .quoted field))
      (hW.put .plain "\"")

theorem composes_writeMembers (first : Bool) (fields : List Field) :
    W (fun out => writeMembers ctx first fields out)
      (joined first (fields.map (Field.text ctx))) := by
  induction fields generalizing first with
  | nil => exact hW.nil
  | cons field rest ih =>
    have hfield := composes_writeField hW hvalue field
    cases first with
    | true => exact hW.andThen (hW.andThen hW.nil hfield) (ih false)
    | false => exact hW.andThen (hW.andThen (hW.put .plain ", ") hfield) (ih false)

theorem composes_writeBlock (separator : String) (fields : List Field) :
    W (fun out => writeBlock ctx separator fields out) (blockText ctx separator fields) :=
  hW.andThen (hW.andThen (hW.andThen (hW.put .plain separator) (hW.put .plain "\x7b "))
    (composes_writeMembers hW hvalue true fields)) (hW.put .plain " \x7d")

end Compositional

theorem writes_writeBlock (hregistry : ctx.registry.All Script.Sound) (separator : String)
    (fields : List Field) :
    Output.Writes (fun out : Output e => writeBlock ctx separator fields out)
      (blockText ctx separator fields) :=
  composes_writeBlock Output.compositional_writes (writes_writeValue hregistry) separator fields

theorem writeBlock_of_hasRoom (hregistry : ctx.registry.All Script.Succeeds) (separator : String)
    (fields : List Field) :
    Output.WritesGivenRoom (fun out : Output e => writeBlock ctx separator fields out)
      (blockText ctx separator fields) :=
  composes_writeBlock Output.compositional_writesGivenRoom (writeValue_of_hasRoom hregistry)
    separator fields

end Render

namespace Record

variable {e : Encoding}

def fieldsText (r : Record) (registry : Registry) (settings : Settings) (fields : FieldList) :
    List Char :=
  if fields.offsets.isEmpty then []
  else blockText (r.context registry settings) settings.separator
    (fields.offsets.toList.filterMap (fieldAt? r.strings r.encoded))

theorem renderFields_of_isEmpty {fields : FieldList} (h : fields.offsets.isEmpty = true)
    (r : Record) (registry : Registry) (settings : Settings) (out : Output e) :
    r.renderFields registry settings fields out = (out, true) := by
  rw [renderFields, if_pos h]

variable {r : Record} {registry : Registry} {settings : Settings} {fields : FieldList}
  {out : Output e}

theorem renderFields_of_writesGivenRoom
    (hblock : ∀ separator fields, Output.WritesGivenRoom
      (fun out : Output e => writeBlock (r.context registry settings) separator fields out)
      (blockText (r.context registry settings) separator fields))
    (h : out.hasRoom (e.encodeChars (r.fieldsText registry settings fields)).length = true) :
    r.renderFields registry settings fields out =
      (out.add (r.fieldsText registry settings fields), true) := by
  rw [fieldsText] at h ⊢
  rw [renderFields]
  cases hempty : fields.offsets.isEmpty with
  | true => simp only [↓reduceIte, Output.add_nil]
  | false =>
    simp only [hempty, Bool.false_eq_true, ↓reduceIte] at h ⊢
    have hwritten := hblock _ _ out h
    simp only [hwritten]

theorem renderFields_of_hasRoom (hregistry : registry.All Script.Sound)
    (h : out.hasRoom (e.encodeChars (r.fieldsText registry settings fields)).length = true) :
    r.renderFields registry settings fields out =
      (out.add (r.fieldsText registry settings fields), true) :=
  renderFields_of_writesGivenRoom
    (fun separator fields => (writes_writeBlock hregistry separator fields).of_hasRoom) h

theorem renderFields_succeeds_of_hasRoom (hregistry : registry.All Script.Succeeds)
    (h : out.hasRoom (e.encodeChars (r.fieldsText registry settings fields)).length = true) :
    r.renderFields registry settings fields out =
      (out.add (r.fieldsText registry settings fields), true) :=
  renderFields_of_writesGivenRoom (writeBlock_of_hasRoom hregistry) h

theorem renderFields_of_not_hasRoom (hregistry : registry.All Script.Sound)
    (hzero : out.hasRoom 0 = true)
    (h : out.hasRoom (e.encodeChars (r.fieldsText registry settings fields)).length = false) :
    r.renderFields registry settings fields out =
      (out.markCut settings.truncatedSuffix, false) := by
  rw [fieldsText] at h
  rw [renderFields]
  cases hempty : fields.offsets.isEmpty with
  | true =>
    simp only [hempty, ↓reduceIte, Encoding.encodeChars_nil, List.length_nil] at h
    rw [hzero] at h
    cases h
  | false =>
    simp only [hempty, Bool.false_eq_true, ↓reduceIte] at h ⊢
    have hctx : (r.context registry settings).registry.All Script.Sound := hregistry
    have hblock := writes_writeBlock (e := e) hctx settings.separator
      (fields.offsets.toList.filterMap (fieldAt? r.strings r.encoded))
    obtain ⟨part, hpart⟩ := hblock.appends out
    have hfull := hblock.of_not_hasRoom out hzero h
    generalize writeBlock (r.context registry settings) settings.separator
      (fields.offsets.toList.filterMap (fieldAt? r.strings r.encoded)) out = written at hpart hfull
    obtain ⟨after, fitted⟩ := written
    obtain rfl : after = out.add part := hpart
    obtain rfl : fitted = false := hfull
    simp only [Output.rewind_add]

end Record
end Logbook
