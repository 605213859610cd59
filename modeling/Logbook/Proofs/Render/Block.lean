import Logbook.Proofs.Number.Lexeme
import Logbook.Proofs.Render.Fields
import Logbook.Proofs.Render.Partition
set_option autoImplicit false

/-!
# The fields of a record as JSON

The fields that a pass over a record noted are found again at their offsets, and their block is one
JSON object with their keys and values in the order in which they were added. A time or an instant
with a leap second that does not end a minute is an empty string there.
-/
namespace Logbook

open Calendar Number Record Render Text

namespace Record

namespace Value

def fieldText (registry : Registry) (nullDisplay : String) (v : Value) : List Char :=
  if v.isReadable then v.shown registry nullDisplay none else []

def json (registry : Registry) (nullDisplay : String) (v : Value) : Json :=
  let text := v.fieldText registry nullDisplay
  match v with
  | .null => .null
  | .bool b => .bool b
  | .integer .. | .decimal _ => .number text
  | .float32 bits =>
    if (Floating.ofBits binary32 bits.toNat).isFinite then .number text else .string text
  | .float64 bits =>
    if (Floating.ofBits binary64 bits.toNat).isFinite then .number text else .string text
  | _ => .string text

def fieldForm : Value → FieldForm
  | .null => .null
  | .bool _ | .integer .. | .decimal _ => .bare
  | .float32 bits =>
    if (Floating.ofBits binary32 bits.toNat).isFinite then .bare else .quoted
  | .float64 bits =>
    if (Floating.ofBits binary64 bits.toNat).isFinite then .bare else .quoted
  | _ => .quoted

def jsonText (registry : Registry) (nullDisplay : String) (v : Value) : List Char :=
  match v.fieldForm with
  | .null => "null".toList
  | .bare => v.fieldText registry nullDisplay
  | .quoted => "\"".toList ++ Form.quoted.image (v.fieldText registry nullDisplay) ++ "\"".toList

theorem fieldFormOf_payload (v : Value) (index : UInt8) (rest : List UInt8) :
    fieldFormOf (v.payload index).tag ((v.payload index).bytes ++ rest) = v.fieldForm := by
  cases v with
  | float32 bits =>
    have hword := takeWord_wordBytes 4 bits rest
    simp only [payload, Payload.tag, Payload.bytes, fieldFormOf, fieldForm, hword]
  | float64 bits =>
    have hword := takeWord_wordBytes 8 bits rest
    simp only [payload, Payload.tag, Payload.bytes, fieldFormOf, fieldForm, hword]
  | instant utc i => cases utc <;> rfl
  | enum type bits =>
    obtain ⟨token, signed, variants⟩ := type
    cases signed <;> rfl
  | _ => rfl

theorem denotes_string (text : List Char) :
    Json.Denotes ("\"".toList ++ Form.quoted.image text ++ "\"".toList) (.string text) :=
  .string ((Json.body_escape_iff text text).2 rfl)

theorem denotes_jsonText (registry : Registry) (nullDisplay : String) (v : Value) :
    Json.Denotes (v.jsonText registry nullDisplay) (v.json registry nullDisplay) := by
  cases v with
  | null => exact .null
  | bool b => exact .bool b
  | integer kind bits => exact .number (isNumber_integer _)
  | decimal d => exact .number d.isNumber_plain
  | float32 bits =>
    rw [jsonText, json, fieldForm]
    cases hfinite : (Floating.ofBits binary32 bits.toNat).isFinite with
    | true => exact .number (Floating.isNumber_plain hfinite)
    | false => exact denotes_string _
  | float64 bits =>
    rw [jsonText, json, fieldForm]
    cases hfinite : (Floating.ofBits binary64 bits.toNat).isFinite with
    | true => exact .number (Floating.isNumber_plain hfinite)
    | false => exact denotes_string _
  | _ => exact denotes_string _

end Value

namespace Addition

def fields : List Addition → List (String × Value)
  | [] => []
  | .field key v :: rest => (key, v) :: fields rest
  | .value _ _ :: rest => fields rest

end Addition

open Addition

def memberText (registry : Registry) (nullDisplay : String) (field : String × Value) : List Char :=
  "\"".toList ++ Form.quoted.image field.1.toList ++ "\": ".toList ++
    field.2.jsonText registry nullDisplay

def jsonMember (registry : Registry) (nullDisplay : String) (field : String × Value) :
    List Char × Json :=
  (field.1.toList, field.2.json registry nullDisplay)

theorem member_memberText (registry : Registry) (nullDisplay : String) (field : String × Value) :
    Json.Member (memberText registry nullDisplay field) (jsonMember registry nullDisplay field) := by
  have hkey := (Json.body_escape_iff field.1.toList field.1.toList).2 rfl
  have hmember := Json.Member.mk hkey (List.forall_mem_nil _)
    (List.forall_mem_singleton.2 (.inl rfl)) (field.2.denotes_jsonText registry nullDisplay)
  simpa [memberText, jsonMember, Form.image] using hmember

theorem members_joined (registry : Registry) (nullDisplay : String) (field : String × Value)
    (rest : List (String × Value)) :
    Json.Members ([' '] ++ memberText registry nullDisplay field ++
        joined false (rest.map (memberText registry nullDisplay)) ++ [' '])
      ((field :: rest).map (jsonMember registry nullDisplay)) := by
  have hblank : Json.IsBlank [' '] := List.forall_mem_singleton.2 (.inl rfl)
  have hnone : Json.IsBlank [] := List.forall_mem_nil _
  have hmember := member_memberText registry nullDisplay field
  induction rest generalizing field with
  | nil =>
    rw [List.map_nil, joined, List.append_nil]
    exact .one hblank hmember hblank
  | cons next rest ih =>
    have hrest := ih next (member_memberText registry nullDisplay next)
    have hmore := Json.Members.more hblank hmember hnone hrest
    rw [List.map_cons, joined]
    simpa using hmore

section Found

variable {ctx : Context}

theorem fieldAt?_stored {strings : Array String} {index : UInt8} {key : String}
    (hkey : strings[index.toNat]? = some key) (v : StoredValue) (front back : List UInt8) :
    fieldAt? strings (front ++ (Stored.field index v).bytes ++ back) front.length =
      some ⟨key, v.payload.tag, v.payload.bytes ++ back⟩ := by
  have hvalue := Header.take?_bytes ⟨v.payload.tag, v.format⟩ (v.payload.bytes ++ back)
  have hheader := Header.take?_bytes ⟨.key, none⟩ (index :: (v.bytes ++ back))
  rw [StoredValue.bytes, List.append_assoc] at hheader
  simp [fieldAt?, Stored.bytes, StoredValue.bytes, hheader, takeByte, hkey, hvalue]

/-- In the table the text of a field's value stands behind the key. -/
theorem tableText_of_field {key : String} {v : Value} {index : Nat}
    (hindex : index + (field key v).slots ≤ maxStringCapacity)
    (hstrings : ∀ k, k < (field key v).slots →
      ctx.strings[index + k]? = (field key v).strings[k]?) {s : String}
    (hs : v.tableText? = some s) : ctx.strings[(UInt8.ofNat index + 1).toNat]? = some s := by
  have hpair : (field key v).strings = [key, s] := by
    rw [Addition.strings, hs]
    rfl
  have htwo : (field key v).slots = 2 := by
    rw [slots, hpair]
    rfl
  rw [htwo, maxStringCapacity] at hindex
  have hnext : (UInt8.ofNat index + UInt8.ofNat 1).toNat = index + 1 := toNat_index (by omega)
  have hget := hstrings 1 (by omega)
  rw [← hnext, hpair] at hget
  exact hget

theorem text_of_fieldAt? {key : String} {v : Value} {index : Nat}
    (hindex : index + (field key v).slots ≤ maxStringCapacity)
    (hstrings : ∀ k, k < (field key v).slots →
      ctx.strings[index + k]? = (field key v).strings[k]?)
    (hstorable : (v.payload (UInt8.ofNat index + 1)).Storable) (front back : List UInt8) :
    ∃ found, fieldAt? ctx.strings
        (front ++ ((field key v).stored (UInt8.ofNat index)).bytes ++ back) front.length =
          some found ∧
      found.text ctx = memberText ctx.registry ctx.nullDisplay (key, v) := by
  have hkey : ctx.strings[(UInt8.ofNat index).toNat]? = some key :=
    getElem?_toNat_index hindex hstrings rfl
  have hshown := present_payload ctx none (UInt8.ofNat index + 1) v
    fun _ => tableText_of_field hindex hstrings
  have hform := v.fieldFormOf_payload (UInt8.ofNat index + 1) back
  have hfound := fieldAt?_stored hkey ⟨none, v.payload (UInt8.ofNat index + 1)⟩ front back
  refine ⟨_, hfound, ?_⟩
  generalize v.payload (UInt8.ofNat index + 1) = payload at hstorable hshown hform
  have htake := Payload.take?_bytes payload hstorable back
  rw [Field.text, Field.valueText, memberText, Value.jsonText, Value.fieldText]
  simp only [htake, hform, hshown]
  cases v.isReadable <;> rfl

theorem map_text_filterMap_fieldAt? (additions : List Addition) {before after : List String}
    (hstrings : ctx.strings.toList = before ++ additions.flatMap Addition.strings ++ after)
    (hcount : before.length + totalSlots additions ≤ maxStringCapacity)
    (hstorable : ∀ s ∈ entries before.length additions, s.payload.Storable)
    (front back : List UInt8) :
    ((fieldStarts front.length (entries before.length additions)).filterMap
        (fieldAt? ctx.strings
          (front ++ (entries before.length additions).flatMap Stored.bytes ++ back))).map
        (Field.text ctx) =
      (fields additions).map (memberText ctx.registry ctx.nullDisplay) := by
  induction additions generalizing before front with
  | nil => rfl
  | cons a rest ih =>
    -- the first addition has its strings after those of `before`, and its bytes after `front`
    rw [totalSlots] at hcount
    obtain ⟨hget, hmore, hlen⟩ := table_cons hstrings
    rw [entries] at hstorable ⊢
    have hfirst := hstorable _ List.mem_cons_self
    have hrest := ih hmore (by omega)
      (by rw [hlen]; exact fun s hs => hstorable s (List.mem_cons_of_mem _ hs))
      (front ++ (a.stored (UInt8.ofNat before.length)).bytes)
    rw [hlen, List.length_append] at hrest
    rw [List.flatMap_cons, fieldStarts, List.filterMap_append, List.map_append]
    simp only [List.append_assoc] at hrest ⊢
    rw [hrest]
    cases a with
    | value v format => rfl
    | field key v =>
      obtain ⟨found, hfound, htext⟩ := text_of_fieldAt? (by omega) hget hfirst front
        ((entries (before.length + (field key v).slots) rest).flatMap Stored.bytes ++ back)
      rw [List.append_assoc] at hfound
      have hone : (if ((field key v).stored (UInt8.ofNat before.length)).isValue = true then []
          else [front.length]) = [front.length] := rfl
      rw [hone, List.filterMap_cons, hfound, fields, List.map_cons, htext]
      rfl

end Found

theorem denotes_object (registry : Registry) (nullDisplay : String)
    {members : List (String × Value)} (h : members ≠ []) :
    Json.Denotes ("\x7b ".toList ++ joined true (members.map (memberText registry nullDisplay)) ++
        " \x7d".toList)
      (.object (members.map (jsonMember registry nullDisplay))) := by
  obtain ⟨field, rest, rfl⟩ := List.exists_cons_of_ne_nil h
  have hobject := Json.Denotes.object (members_joined registry nullDisplay field rest)
  simpa [joined] using hobject

theorem exists_entries_eq {index : Nat} {additions : List Addition} {before after : List Stored}
    (h : entries index additions = before ++ after) :
    ∃ seen, seen <+: additions ∧ before = entries index seen := by
  induction additions generalizing index before with
  | nil =>
    obtain ⟨rfl, rfl⟩ := List.append_eq_nil_iff.1 h.symm
    exact ⟨[], List.prefix_refl [], rfl⟩
  | cons a rest ih =>
    cases before with
    | nil => exact ⟨[], List.nil_prefix, rfl⟩
    | cons s before =>
      obtain ⟨hfirst, hrest⟩ := List.cons.inj h
      obtain ⟨seen, hseen, rfl⟩ := ih hrest
      exact ⟨a :: seen, (List.prefix_cons_inj a).2 hseen, by rw [entries, hfirst]⟩

/-- A point between entries lies after some additions and perhaps a part of the next, which is no
field. -/
theorem Keeps.exists_fieldStarts_eq {r : Record} {asked kept : List Addition}
    {part : Option Stored} {marked : Bool} (h : r.Keeps asked kept part marked)
    {before after : List Stored} (hsplit : entries 0 kept ++ part.toList = before ++ after) :
    ∃ seen, seen <+: kept ∧ fieldStarts 0 before = fieldStarts 0 (entries 0 seen) := by
  rcases List.append_eq_append_iff.1 hsplit with ⟨more, rfl, hpart⟩ | ⟨more, hkept, _⟩
  · refine ⟨kept, List.prefix_refl kept, ?_⟩
    have hmore : ∀ s ∈ more, s.isValue = true := fun s hs =>
      h.isValue_of_mem_part (hpart ▸ List.mem_append_left after hs)
    rw [fieldStarts_append, fieldStarts_eq_nil hmore, List.append_nil]
  · obtain ⟨seen, hseen, rfl⟩ := exists_entries_eq hkept
    exact ⟨seen, hseen, rfl⟩

theorem length_fieldStarts_eq (position index : Nat) (additions : List Addition) :
    (fieldStarts position (entries index additions)).length = (fields additions).length := by
  induction additions generalizing position index with
  | nil => rfl
  | cons a rest ih =>
    rw [entries, fieldStarts, List.length_append, ih]
    cases a with
    | value v format => exact Nat.zero_add _
    | field key v => exact Nat.add_comm _ _

theorem Keeps.fieldsText_eq {r : Record} {asked seen unseen : List Addition} {part : Option Stored}
    {marked : Bool} (h : r.Keeps asked (seen ++ unseen) part marked)
    (hsize : r.segment.size < 0x1_0000_0000) {noted : FieldList}
    (hnoted : noted.offsets.toList = fieldStarts 0 (entries 0 seen)) (hne : noted.offsets ≠ #[])
    (registry : Registry) (settings : Settings) :
    fields seen ≠ [] ∧
      r.fieldsText registry settings noted = settings.separator.toList ++ ("\x7b ".toList ++
        joined true ((fields seen).map (memberText registry settings.nullDisplay)) ++
        " \x7d".toList) := by
  have hoffsets : noted.offsets.isEmpty = false := by
    cases hempty : noted.offsets.isEmpty with
    | false => rfl
    | true => exact absurd (Array.isEmpty_iff.1 hempty) hne
  have hmembers : fields seen ≠ [] := by
    intro hnil
    have hlength := length_fieldStarts_eq 0 0 seen
    rw [hnil, ← hnoted, Array.length_toList] at hlength
    exact hne (Array.size_eq_zero_iff.1 hlength)
  have hstrings : (r.context registry settings).strings.toList =
      [] ++ seen.flatMap Addition.strings ++ unseen.flatMap Addition.strings := by
    rw [List.nil_append, ← List.flatMap_append]
    exact h.strings_eq
  have hcount : ([] : List String).length + totalSlots seen ≤ maxStringCapacity := by
    have hslots := h.totalSlots_le
    rw [← length_strings, List.flatMap_append, List.length_append, length_strings] at hslots
    rw [List.length_nil]
    omega
  have hsplit : r.encoded = [] ++ (entries 0 seen).flatMap Stored.bytes ++
      ((entries (0 + totalSlots seen) unseen ++ part.toList).flatMap Stored.bytes ++
        if marked then [Tag.cut.code] else []) := by
    rw [h.holds.encoded_eq, entries_append, List.append_assoc, List.flatMap_append,
      List.append_assoc]
    rfl
  have hstorable : ∀ s ∈ entries ([] : List String).length seen, s.payload.Storable := by
    intro s hs
    refine h.holds.storable_of_size_lt hsize (List.mem_append_left _ ?_)
    rw [entries_append]
    exact List.mem_append_left _ hs
  have hfound : ((fieldStarts 0 (entries 0 seen)).filterMap (fieldAt? r.strings r.encoded)).map
      (Field.text (r.context registry settings)) =
        (fields seen).map (memberText registry settings.nullDisplay) := by
    rw [hsplit]
    exact map_text_filterMap_fieldAt? seen hstrings hcount hstorable [] _
  refine ⟨hmembers, ?_⟩
  simp only [fieldsText, hoffsets, blockText, hnoted, Bool.false_eq_true, ↓reduceIte, hfound,
    List.append_assoc]

/-- Whatever was done to a record, the fields noted by a pass over it are those of its first
additions, and their block is the separator and a JSON object of their keys and values in that
order. Where it does not fit, nothing of it is left but the mark. -/
theorem run_block (segment : Segment) (capacity serial : Nat) (ops : List Operation)
    (registry : Registry) (hsize : segment.size < 0x1_0000_0000)
    (hregistry : registry.All Script.Sound) :
    let r := (create segment capacity serial).run ops
    ∃ kept part marked, r.Keeps (Operation.lastAdded ops) kept part marked ∧
      ∀ (e : Encoding) (collecting : Settings) (skipFormats : Bool) (collected : FieldList)
        (shown : Output e),
        let noted := (r.render registry collecting skipFormats collected shown).fields
        ∃ seen, seen <+: kept ∧
          noted.offsets.toList = fieldStarts 0 (Addition.entries 0 seen) ∧
          ∀ (e : Encoding), e = utf8 ∨ e = utf16 →
            ∀ (settings : Settings) (out : Output e), out.hasRoom 0 = true →
              let block := r.renderFields registry settings noted out
              (noted.offsets = #[] → block = (out, true)) ∧
              (noted.offsets ≠ #[] → ∃ object,
                Json.Denotes object (.object
                  ((Addition.fields seen).map (jsonMember registry settings.nullDisplay))) ∧
                let text := settings.separator.toList ++ object
                (out.hasRoom (e.encodeChars text).length = true → block = (out.add text, true)) ∧
                (out.hasRoom (e.encodeChars text).length = false →
                  block = (out.markCut settings.truncatedSuffix, false) ∧
                  ∀ limit base, out.capacity = some limit →
                    out.units.toList = e.encodeChars base →
                    MarkedText e limit base settings.truncatedSuffix block.1.units.toList)) := by
  intro r
  obtain ⟨kept, part, marked, h⟩ := keeps_run segment capacity serial ops
  refine ⟨kept, part, marked, h, fun e collecting skipFormats collected shown => ?_⟩
  intro noted
  have hr : r.segment.size < 0x1_0000_0000 := size_run_lt hsize capacity serial ops
  have hstorable := fun s hs => h.holds.storable_of_size_lt hr (s := s) hs
  obtain ⟨before, after, hsplit, hnoted, -⟩ := render_notes registry hstorable
    h.holds.encoded_eq collecting skipFormats collected shown
  obtain ⟨first, rest, hbefore, htake⟩ := take_fieldStarts collected.capacity 0 before
  rw [htake] at hnoted
  rw [hbefore, List.append_assoc] at hsplit
  obtain ⟨seen, ⟨unseen, rfl⟩, hstarts⟩ := h.exists_fieldStarts_eq hsplit
  rw [hstarts] at hnoted
  refine ⟨seen, ⟨unseen, rfl⟩, hnoted, fun e hencoding settings out hzero => ?_⟩
  intro block
  refine ⟨fun hempty => ?_, fun hne => ?_⟩
  · exact renderFields_of_isEmpty (by rw [hempty]; rfl) r registry settings out
  obtain ⟨hmembers, htext⟩ := h.fieldsText_eq hr hnoted hne registry settings
  refine ⟨_, denotes_object registry settings.nullDisplay hmembers, ?_⟩
  intro text
  have hfields : r.fieldsText registry settings noted = text := htext
  rw [← hfields]
  refine ⟨renderFields_of_hasRoom hregistry, fun hfull => ?_⟩
  have hblock : block = (out.markCut settings.truncatedSuffix, false) :=
    renderFields_of_not_hasRoom hregistry hzero hfull
  refine ⟨hblock, fun limit base hlimit hunits => ?_⟩
  rw [hblock]
  have he : e.Lawful := by
    rcases hencoding with rfl | rfl
    · exact utf8_lawful
    · exact utf16_lawful
  exact markedText_markCut he ⟨hlimit, hunits⟩ settings.truncatedSuffix

/-- A quote in a key, a line break in a text and a number that is no text. -/
theorem run_block_two_fields :
    let ops : List Operation := [.reset none .info .epoch "main",
      .add (.field "a\"b" (.span "c\nd")), .add (.value (.text "n") none),
      .add (.field "e" (.integer .uint8 7))]
    let r := (create (Segment.zeroed 64) 4 0).run ops
    let noted := (r.render .empty {} false {} (Output.bounded utf8 1)).fields
    let block := r.renderFields .empty {} noted (Output.unlimited utf8)
    let units : Array UInt8 := block.1.units
    (∃ object members, Json.Denotes object (.object members) ∧
      block = ((Output.unlimited utf8).add (" ~~ ".toList ++ object), true)) ∧
    units.toList = Utf8.bytes " ~~ \x7b \"a\\\"b\": \"c\\nd\", \"e\": 7 \x7d" := by
  intro ops r noted block units
  obtain ⟨kept, part, marked, _, h⟩ := run_block (Segment.zeroed 64) 4 0 ops .empty (by decide) nofun
  obtain ⟨seen, _, _, hnoted⟩ := h utf8 {} false {} (Output.bounded utf8 1)
  obtain ⟨_, hblock⟩ := hnoted utf8 (.inl rfl) {} (Output.unlimited utf8) rfl
  obtain ⟨object, hobject, hroom, _⟩ := hblock (by decide)
  exact ⟨⟨object, _, hobject, hroom (Output.hasRoom_unlimited rfl _)⟩, by decide⟩

/-- A leap second that does not end a minute has a text, but the field's value is empty. -/
theorem run_block_lost_time :
    let time : Value := .time ⟨0, 1000000000, by decide, by decide⟩
    let ops : List Operation := [.reset none .info .epoch "main", .add (.field "k" time)]
    let r := (create (Segment.zeroed 64) 4 0).run ops
    let noted := (r.render .empty {} false {} (Output.unlimited utf8)).fields
    let units : Array UInt8 := (r.renderFields .empty {} noted (Output.unlimited utf8)).1.units
    r.truncated = false ∧ units.toList = Utf8.bytes " ~~ \x7b \"k\": \"\" \x7d" ∧
      time.shown .empty "null" none = "00:00:01".toList := by
  decide

end Record
end Logbook
