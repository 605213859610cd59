import Logbook.Proofs.Number.Lexeme
import Logbook.Proofs.Record.Decoded
import Logbook.Proofs.Render.Fields
import Logbook.Proofs.Render.Skip
import Logbook.Proofs.Text.Quotes
import Mathlib.Data.List.Forall2
set_option autoImplicit false

/-!
# Fields at offsets that are out of date

A list of offsets may outlive the content of the record that it was made for. Then its offsets lie
anywhere, also in the middle of payloads, and arbitrary bytes are taken for keys and values. The
block keeps its shape all the same: it has one item for each offset where a field happens to start,
and the quotes in it are balanced.
-/
namespace Logbook

open Number Record Render Text

namespace Render

/-! ## Where fields start -/

/-- A field starts where the bytes hold the header of a key, with the index of a format or without,
the index of a string that the table has, and the header of a value. -/
def StartsAt (strings : Array String) (data : List UInt8) (offset : Nat) (field : Field) : Prop :=
  ∃ (keyFormat valueFormat : Option UInt8) (index : UInt8),
    data.drop offset = (Header.mk .key keyFormat).bytes ++
      (index :: ((Header.mk field.tag valueFormat).bytes ++ field.data)) ∧
    strings[index.toNat]? = some field.key

inductive Finds (strings : Array String) (data : List UInt8) : List Nat → List Field → Prop
  | nil : Finds strings data [] []
  | found {offset : Nat} {offsets : List Nat} {field : Field} {fields : List Field} :
      StartsAt strings data offset field → Finds strings data offsets fields →
      Finds strings data (offset :: offsets) (field :: fields)
  | passed {offset : Nat} {offsets : List Nat} {fields : List Field} :
      (∀ field, ¬StartsAt strings data offset field) → Finds strings data offsets fields →
      Finds strings data (offset :: offsets) fields

variable {strings : Array String} {data : List UInt8}

theorem fieldAt?_eq_some_iff {offset : Nat} {field : Field} :
    fieldAt? strings data offset = some field ↔ StartsAt strings data offset field := by
  constructor
  · intro h
    obtain ⟨⟨⟨tag, keyFormat⟩, afterKey⟩, hheader, h⟩ := Option.bind_eq_some_iff.1 h
    by_cases htag : tag = .key
    · subst htag
      obtain ⟨⟨index, afterIndex⟩, hindex, h⟩ := Option.bind_eq_some_iff.1 h
      obtain ⟨key, hkey, h⟩ := Option.bind_eq_some_iff.1 h
      obtain ⟨⟨⟨valueTag, valueFormat⟩, rest⟩, hvalue, h⟩ := Option.bind_eq_some_iff.1 h
      cases h
      refine ⟨keyFormat, valueFormat, index, ?_, hkey⟩
      rw [Header.take?_eq_some_iff.1 hheader, eq_append_of_takeByte hindex,
        Header.take?_eq_some_iff.1 hvalue]
      rfl
    · simp [htag] at h
  · rintro ⟨keyFormat, valueFormat, index, hdata, hkey⟩
    have hheader := Header.take?_eq_some_iff.2 hdata
    have hvalue := Header.take?_bytes ⟨field.tag, valueFormat⟩ field.data
    simp [fieldAt?, hheader, takeByte, hkey, hvalue]

theorem finds_filterMap (strings : Array String) (data : List UInt8) (offsets : List Nat) :
    Finds strings data offsets (offsets.filterMap (fieldAt? strings data)) := by
  induction offsets with
  | nil => exact .nil
  | cons offset offsets ih =>
    cases h : fieldAt? strings data offset with
    | none =>
      rw [List.filterMap_cons_none h]
      refine .passed (fun field hstarts => ?_) ih
      rw [fieldAt?_eq_some_iff.2 hstarts] at h
      cases h
    | some field =>
      rw [List.filterMap_cons_some h]
      exact .found (fieldAt?_eq_some_iff.1 h) ih

theorem StartsAt.lt_length {offset : Nat} {field : Field} (h : StartsAt strings data offset field) :
    offset < data.length := by
  obtain ⟨keyFormat, valueFormat, index, hdata, _⟩ := h
  by_contra hge
  rw [List.drop_eq_nil_of_le (Nat.le_of_not_lt hge)] at hdata
  have hnil := List.append_eq_nil_iff.1 hdata.symm
  cases hnil.2

/-! ## What stands for a field -/

namespace Field

/-- The text of a value: the default text of the payload that its bytes begin with, and an empty one
if they begin with none or with one that is not on the calendar. -/
inductive Reads (ctx : Context) (field : Field) : List Char → Prop
  | shown {payload : Payload} {rest : List UInt8} {text : List Char} :
      payload.Begins field.tag field.data rest → (present ctx none payload).shown? = some text →
      Reads ctx field text
  | unreadable {payload : Payload} {rest : List UInt8} :
      payload.Begins field.tag field.data rest → ¬payload.OnCalendar → Reads ctx field []
  | cutShort : (∀ (payload : Payload) (rest : List UInt8),
      ¬payload.Begins field.tag field.data rest) → Reads ctx field []

/-- The text of the value stands without quotes: it is that of a truth value, an integer, a decimal
or a finite floating-point number. -/
def IsBare (field : Field) : Prop :=
  match field.tag with
  | .bool | .integer _ | .decimal => True
  | .float32 => ∃ (bits : BitVec 32) (rest : List UInt8),
      field.data = (Payload.float32 bits).bytes ++ rest ∧
        (Floating.ofBits binary32 bits.toNat).isFinite = true
  | .float64 => ∃ (bits : BitVec 64) (rest : List UInt8),
      field.data = (Payload.float64 bits).bytes ++ rest ∧
        (Floating.ofBits binary64 bits.toNat).isFinite = true
  | _ => False

end Field

def quotation (text : List Char) : List Char := ['"'] ++ Form.quoted.image text ++ ['"']

namespace Field

/-- What stands for a field in the block: its key and its value, which is null, a bare text or a
quoted one. -/
inductive IsItem (ctx : Context) (field : Field) : List Char → Prop
  | null : field.tag = .null →
      IsItem ctx field (quotation field.key.toList ++ ": ".toList ++ "null".toList)
  | bare {text : List Char} : field.IsBare → field.Reads ctx text →
      IsItem ctx field (quotation field.key.toList ++ ": ".toList ++ text)
  | quoted {text : List Char} : field.tag ≠ .null → ¬field.IsBare → field.Reads ctx text →
      IsItem ctx field (quotation field.key.toList ++ ": ".toList ++ quotation text)

variable {ctx : Context} {field : Field}

theorem reads_valueText (ctx : Context) (field : Field) : field.Reads ctx (field.valueText ctx) := by
  rw [valueText]
  cases htake : Payload.take? field.tag field.data with
  | none =>
    refine .cutShort fun payload rest hbegins => ?_
    rw [Payload.take?_eq_some_iff.2 hbegins] at htake
    cases htake
  | some taken =>
    obtain ⟨payload, rest⟩ := taken
    have hbegins := Payload.take?_eq_some_iff.1 htake
    simp only
    cases hshown : (present ctx none payload).shown? with
    | none =>
      refine .unreadable hbegins fun hcalendar => ?_
      have hsome := (isSome_shown?_present_iff ctx none payload).2 hcalendar
      rw [hshown] at hsome
      cases hsome
    | some text => exact .shown hbegins hshown

theorem test_of_word {count : Nat} {test : BitVec (8 * count) → Bool} {bits : BitVec (8 * count)}
    {data rest : List UInt8} (hdata : data = wordBytes count bits ++ rest)
    (hbare : ∃ bits rest, data = wordBytes count bits ++ rest ∧ test bits = true) :
    test bits = true := by
  obtain ⟨other, rest', hother, htest⟩ := hbare
  have hword := takeWord_wordBytes count bits rest
  rw [← hdata, hother, takeWord_wordBytes] at hword
  cases hword
  exact htest

theorem wordForm_cases {count : Nat} {data : List UInt8} {test : BitVec (8 * count) → Bool}
    {form : FieldForm}
    (hword : ∀ bits rest, takeWord count data = some (bits, rest) →
      form = if test bits then .bare else .quoted)
    (hnone : takeWord count data = none → form = .quoted) :
    ((∃ bits rest, data = wordBytes count bits ++ rest ∧ test bits = true) ∧ form = .bare) ∨
      ((¬∃ bits rest, data = wordBytes count bits ++ rest ∧ test bits = true) ∧
        form = .quoted) := by
  cases htake : takeWord count data with
  | none =>
    refine .inr ⟨?_, hnone htake⟩
    rintro ⟨bits, rest, rfl, _⟩
    rw [takeWord_wordBytes] at htake
    cases htake
  | some taken =>
    obtain ⟨bits, rest⟩ := taken
    have hdata := eq_append_of_takeWord htake
    have hform := hword bits rest htake
    cases htest : test bits with
    | true =>
      rw [htest] at hform
      exact .inl ⟨⟨bits, rest, hdata, htest⟩, hform⟩
    | false =>
      rw [htest] at hform
      refine .inr ⟨fun hbare => ?_, hform⟩
      rw [test_of_word hdata hbare] at htest
      cases htest

theorem fieldFormOf_cases (field : Field) :
    (field.tag = .null ∧ fieldFormOf field.tag field.data = .null) ∨
      (field.IsBare ∧ fieldFormOf field.tag field.data = .bare) ∨
      (field.tag ≠ .null ∧ ¬field.IsBare ∧ fieldFormOf field.tag field.data = .quoted) := by
  obtain ⟨key, tag, data⟩ := field
  cases tag with
  | null => exact .inl ⟨rfl, rfl⟩
  | bool | decimal => exact .inr (.inl ⟨trivial, rfl⟩)
  | integer kind => exact .inr (.inl ⟨trivial, rfl⟩)
  | float32 =>
    have hform := @wordForm_cases 4 data
      (fun bits => (Floating.ofBits binary32 bits.toNat).isFinite) (fieldFormOf .float32 data)
      (fun bits rest htake => by simp only [fieldFormOf, htake])
      (fun htake => by simp only [fieldFormOf, htake])
    exact .inr (hform.imp_right fun hquoted => ⟨nofun, hquoted⟩)
  | float64 =>
    have hform := @wordForm_cases 8 data
      (fun bits => (Floating.ofBits binary64 bits.toNat).isFinite) (fieldFormOf .float64 data)
      (fun bits rest htake => by simp only [fieldFormOf, htake])
      (fun htake => by simp only [fieldFormOf, htake])
    exact .inr (hform.imp_right fun hquoted => ⟨nofun, hquoted⟩)
  | _ => exact .inr (.inr ⟨nofun, nofun, rfl⟩)

theorem text_eq (ctx : Context) (field : Field) : field.text ctx =
    quotation field.key.toList ++ ": ".toList ++
      match fieldFormOf field.tag field.data with
      | .null => "null".toList
      | .bare => field.valueText ctx
      | .quoted => quotation (field.valueText ctx) := by
  rw [text, quotation]
  cases fieldFormOf field.tag field.data <;> simp [quotation]

theorem isItem_text (ctx : Context) (field : Field) : field.IsItem ctx (field.text ctx) := by
  have hreads := reads_valueText ctx field
  rw [text_eq]
  rcases fieldFormOf_cases field with ⟨htag, hform⟩ | ⟨hbare, hform⟩ | ⟨htag, hbare, hform⟩
  · rw [hform]
    exact .null htag
  · rw [hform]
    exact .bare hbare hreads
  · rw [hform]
    exact .quoted htag hbare hreads

theorem quote_not_mem_of_isBare {text : List Char} (hbare : field.IsBare)
    (hreads : field.Reads ctx text) : '"' ∉ text := by
  cases hreads with
  | unreadable => exact List.not_mem_nil
  | cutShort => exact List.not_mem_nil
  | @shown payload rest text hbegins hshown =>
    obtain ⟨key, tag, data⟩ := field
    -- the tag is that of the payload, so the other payloads contradict `hbare`
    obtain ⟨rfl, hstorable, hdata⟩ := hbegins
    cases payload with
    | bool byte =>
      obtain rfl := Option.some.inj hshown
      split <;> decide
    | integer kind bits =>
      obtain rfl := Option.some.inj hshown
      rw [String.toList_ofList]
      exact Json.quote_not_mem_of_isNumber (isNumber_integer _)
    | decimal flags low mid high =>
      obtain rfl := Option.some.inj hshown
      rw [String.toList_ofList]
      exact Json.quote_not_mem_of_isNumber (Decimal96.isNumber_plain _)
    | float32 bits =>
      obtain rfl := Option.some.inj hshown
      have hfinite := @test_of_word 4
        (fun bits => (Floating.ofBits binary32 bits.toNat).isFinite) bits _ _ hdata hbare
      rw [String.toList_ofList]
      exact Json.quote_not_mem_of_isNumber (Floating.isNumber_plain hfinite)
    | float64 bits =>
      obtain rfl := Option.some.inj hshown
      have hfinite := @test_of_word 8
        (fun bits => (Floating.ofBits binary64 bits.toNat).isFinite) bits _ _ hdata hbare
      rw [String.toList_ofList]
      exact Json.quote_not_mem_of_isNumber (Floating.isNumber_plain hfinite)
    | instant utc seconds nanos => cases utc <;> cases hbare
    | enum signed token bits => cases signed <;> cases hbare
    | _ => cases hbare

end Field

/-! ## The block -/

theorem quotesBalanced_quotation (text : List Char) : QuotesBalanced (quotation text) :=
  .string ((Json.body_escape_iff text text).2 rfl)

theorem Field.IsItem.quotesBalanced {ctx : Context} {field : Field} {item : List Char}
    (h : field.IsItem ctx item) : QuotesBalanced item := by
  have hcolon : QuotesBalanced ": ".toList := .of_not_mem (by decide)
  have hkeyed := (quotesBalanced_quotation field.key.toList).append hcolon
  cases h with
  | null => exact hkeyed.append (.of_not_mem (by decide))
  | bare hbare hreads => exact hkeyed.append (.of_not_mem (quote_not_mem_of_isBare hbare hreads))
  | quoted _ _ hreads => exact hkeyed.append (quotesBalanced_quotation _)

def objectOf (items : List (List Char)) : List Char :=
  "\x7b ".toList ++ ", ".toList.intercalate items ++ " \x7d".toList

theorem joined_eq_intercalate (items : List (List Char)) :
    joined true items = ", ".toList.intercalate items := by
  have hrest : ∀ first rest, first ++ joined false rest =
      ", ".toList.intercalate (first :: rest) := by
    intro first rest
    induction rest generalizing first with
    | nil => simp [joined]
    | cons second rest ih =>
      rw [List.intercalate_cons_cons, ← ih second, joined]
      simp
  cases items with
  | nil => rfl
  | cons first rest => exact hrest first rest

theorem quotesBalanced_objectOf {items : List (List Char)}
    (h : ∀ item ∈ items, QuotesBalanced item) : QuotesBalanced (objectOf items) :=
  ((QuotesBalanced.of_not_mem (by decide)).append
    (.intercalate (.of_not_mem (by decide)) h)).append (.of_not_mem (by decide))

end Render

namespace Record

theorem fieldsText_of_ne (r : Record) (registry : Registry) (settings : Settings)
    {list : FieldList} (h : list.offsets ≠ #[]) :
    r.fieldsText registry settings list = settings.separator.toList ++ objectOf
      ((list.offsets.toList.filterMap (fieldAt? r.strings r.encoded)).map
        (Field.text (r.context registry settings))) := by
  have hempty : list.offsets.isEmpty = false := by
    cases hcase : list.offsets.isEmpty with
    | false => rfl
    | true => exact absurd (Array.isEmpty_iff.1 hcase) h
  rw [fieldsText, hempty, blockText, joined_eq_intercalate, objectOf]
  simp only [Bool.false_eq_true, ↓reduceIte, List.append_assoc]

/-- What lies beyond the bytes in use does not show. -/
theorem renderFields_congr_segment (r : Record) (registry : Registry) (settings : Settings)
    (list : FieldList) {e : Encoding} (out : Output e) {segment : Segment}
    (h : segment.firstBytes r.position = r.encoded) :
    ({ r with segment } : Record).renderFields registry settings list out =
      r.renderFields registry settings list out := by
  have hencoded : ({ r with segment } : Record).encoded = r.encoded := h
  rw [renderFields, renderFields, hencoded]
  rfl

/-- Whatever a record holds and whatever the offsets are: nothing is written for no offsets, and
otherwise the separator and one object, with an item for each offset at which a field starts and
with balanced quotes. No field starts beyond the bytes in use, and what lies there does not show. -/
theorem stale_fields_keep_shape {registry : Registry} (hregistry : registry.All Script.Succeeds)
    (r : Record) (settings : Settings) (list : FieldList) {e : Encoding} (out : Output e) :
    let block := r.renderFields registry settings list out
    (list.offsets = #[] → block = (out, true)) ∧
      (list.offsets ≠ #[] → ∃ fields items,
        Finds r.strings r.encoded list.offsets.toList fields ∧
        List.Forall₂ (Field.IsItem (r.context registry settings)) fields items ∧
        QuotesBalanced (objectOf items) ∧
        let text := settings.separator.toList ++ objectOf items
        out.hasRoom (e.encodeChars text).length = true → block = (out.add text, true)) ∧
      (∀ offset field, r.position ≤ offset → ¬StartsAt r.strings r.encoded offset field) ∧
      ∀ segment : Segment, segment.firstBytes r.position = r.encoded →
        ({ r with segment } : Record).renderFields registry settings list out = block := by
  intro block
  refine ⟨fun hempty => ?_, fun hne => ?_, fun offset field hle hstarts => ?_, fun segment h => ?_⟩
  · exact renderFields_of_isEmpty (by rw [hempty]; rfl) r registry settings out
  · have htext := fieldsText_of_ne r registry settings hne
    generalize hfields : list.offsets.toList.filterMap (fieldAt? r.strings r.encoded) = fields
      at htext
    have hitems : List.Forall₂ (Field.IsItem (r.context registry settings)) fields
        (fields.map (Field.text (r.context registry settings))) :=
      List.forall₂_map_right_iff.2
        (List.forall₂_same.2 fun field _ => Field.isItem_text _ field)
    have hbalanced : ∀ item ∈ fields.map (Field.text (r.context registry settings)),
        QuotesBalanced item := by
      intro item hitem
      obtain ⟨field, _, rfl⟩ := List.mem_map.1 hitem
      exact (Field.isItem_text _ field).quotesBalanced
    refine ⟨fields, _, hfields ▸ finds_filterMap _ _ _, hitems,
      quotesBalanced_objectOf hbalanced, fun hroom => ?_⟩
    rw [← htext] at hroom ⊢
    exact renderFields_succeeds_of_hasRoom hregistry hroom
  · have hlt := hstarts.lt_length
    rw [encoded, Segment.length_firstBytes] at hlt
    exact absurd hlt (Nat.not_lt.2 hle)
  · exact renderFields_congr_segment r registry settings list out h

/-- Two fields in the bytes of a number: one behind the index of a format, whose value has no bytes
left, and one that is whole. -/
theorem stale_fields_keep_shape_in_number :
    let ops : List Operation := [.reset none .info .epoch "main", .add (.value (.text "k\"") none),
      .add (.value (.integer .uint64 0x1300099f2a06001f) none)]
    let r := (create (Segment.zeroed 64) 4 0).run ops
    let list : FieldList := { offsets := #[7, 2, 3, 200] }
    let out := Output.unlimited utf8
    let block := r.renderFields .empty {} list out
    let units : Array UInt8 := block.1.units
    Registry.All Script.Succeeds .empty ∧ list.offsets ≠ #[] ∧
      (∃ fields items, Finds r.strings r.encoded [7, 2, 3, 200] fields ∧
        List.Forall₂ (Field.IsItem (r.context .empty {})) fields items ∧
        block = (out.add (" ~~ ".toList ++ objectOf items), true)) ∧
      units.toList = Utf8.bytes " ~~ \x7b \"k\\\"\": \"\", \"k\\\"\": 42 \x7d" := by
  intro ops r list out block units
  have hregistry : Registry.All Script.Succeeds .empty := nofun
  have hne : list.offsets ≠ #[] := by decide
  obtain ⟨_, hblock, _⟩ := stale_fields_keep_shape hregistry r {} list out
  obtain ⟨fields, items, hfields, hitems, _, hwritten⟩ := hblock hne
  exact ⟨hregistry, hne, ⟨fields, items, hfields, hitems,
    hwritten (Output.hasRoom_unlimited rfl _)⟩, by decide⟩

end Record
end Logbook
