import Logbook.Proofs.Render.Block
import Mathlib.Data.List.Forall2
set_option autoImplicit false

/-!
# Formats that are ignored

A format string takes a byte of its entry and a place in the string table, so two records of the
same values, one with formats and one without, differ in nearly every byte and every index. They
look alike all the same: as long as formats are ignored, each entry shows what the other record's
entry shows. `Alike` relates such entries; writing the values, noting the fields and writing the
block keep it.
-/
namespace Logbook

open Calendar Number Record Render Text

/-! ## The same payload at other places of the table -/

section Present

variable {ctx ctx' : Context}

theorem Render.enumText_congr (hregistry : ctx'.registry = ctx.registry) (signed : Bool)
    (token bits : BitVec 64) (format : Option String) :
    enumText ctx' signed token bits format = enumText ctx signed token bits format := by
  simp only [enumText, hregistry]

theorem Render.present_payload_congr (hregistry : ctx'.registry = ctx.registry)
    (hnull : ctx'.nullDisplay = ctx.nullDisplay) {v : Value} {index index' : UInt8}
    (htext : ∀ s, v.tableText? = some s →
      ctx.strings[index.toNat]? = some s ∧ ctx'.strings[index'.toNat]? = some s)
    (format : Option String) :
    present ctx' format (v.payload index') = present ctx format (v.payload index) := by
  cases v with
  | text s =>
    obtain ⟨hfound, hfound'⟩ := htext s rfl
    simp only [Value.payload, present, hfound, hfound']
  | null => simp only [Value.payload, present, hnull]
  | enum type bits => simp only [Value.payload, present, enumText_congr hregistry]
  | unmanaged v => simp only [Value.payload, present, hregistry]
  | _ => rfl

end Present

namespace Record

def Addition.plain : Addition → Addition
  | .value v _ => .value v none
  | .field key v => .field key v

/-- Entries that show the same, each under its own context and with formats or without. -/
inductive Stored.Alike (ctx : Context) (skipFormats : Bool) (ctx' : Context)
    (skipFormats' : Bool) : Stored → Stored → Prop
  | value {v v' : StoredValue}
      (h : present ctx' (formatAt ctx' skipFormats' v'.format) v'.payload =
        present ctx (formatAt ctx skipFormats v.format) v.payload) :
      Alike ctx skipFormats ctx' skipFormats' (.value v) (.value v')
  | field {index index' : UInt8} {v v' : StoredValue} (key : String)
      (hkey : ctx.strings[index.toNat]? = some key)
      (hkey' : ctx'.strings[index'.toNat]? = some key)
      (h : present ctx' none v'.payload = present ctx none v.payload)
      (hform : ∀ rest rest', fieldFormOf v'.payload.tag (v'.payload.bytes ++ rest') =
        fieldFormOf v.payload.tag (v.payload.bytes ++ rest)) :
      Alike ctx skipFormats ctx' skipFormats' (.field index v) (.field index' v')

open Addition

section Entries

variable {ctx ctx' : Context} {skipFormats' : Bool}

theorem formatAt_skipped (ctx : Context) (format : Option UInt8) :
    formatAt ctx true format = none := rfl

theorem formatAt_none (ctx : Context) (skipFormats : Bool) :
    formatAt ctx skipFormats none = none := by
  cases skipFormats <;> rfl

/-- Where its strings are in both tables, the entry of an addition without its format looks like
the entry with it, if formats are ignored there. -/
theorem alike_stored (hregistry : ctx'.registry = ctx.registry)
    (hnull : ctx'.nullDisplay = ctx.nullDisplay) (a : Addition) {index index' : Nat}
    (hindex : index + a.slots ≤ maxStringCapacity)
    (hstrings : ∀ k, k < a.slots → ctx.strings[index + k]? = a.strings[k]?)
    (hindex' : index' + a.plain.slots ≤ maxStringCapacity)
    (hstrings' : ∀ k, k < a.plain.slots → ctx'.strings[index' + k]? = a.plain.strings[k]?) :
    Stored.Alike ctx true ctx' skipFormats' (a.stored (UInt8.ofNat index))
      (a.plain.stored (UInt8.ofNat index')) := by
  cases a with
  | field key v =>
    refine .field key (getElem?_toNat_index hindex hstrings rfl)
      (getElem?_toNat_index hindex' hstrings' rfl) ?_ ?_
    · exact present_payload_congr hregistry hnull
        (fun s hs => ⟨tableText_of_field hindex hstrings hs,
          tableText_of_field hindex' hstrings' hs⟩) none
    · intro rest rest'
      rw [Value.fieldFormOf_payload, Value.fieldFormOf_payload]
  | value v format =>
    have hplain : format? (.value v none) = none := ite_self _
    have hplaintext : ∀ s, v.tableText? = some s →
        ctx'.strings[(UInt8.ofNat index').toNat]? = some s := by
      intro s hs
      apply getElem?_toNat_index hindex' hstrings'
      rw [plain, Addition.strings, hplain, hs]
      rfl
    have htext : ∀ s, v.tableText? = some s → ctx.strings[(if (format? (.value v format)).isSome
        then UInt8.ofNat index + 1 else UInt8.ofNat index).toNat]? = some s := by
      intro s hs
      cases hf : format? (.value v format) with
      | none =>
        apply getElem?_toNat_index hindex hstrings
        rw [Addition.strings, hf, hs]
        rfl
      | some f =>
        -- no kind takes both a format and a place in the table
        rw [Value.tableText?_of_takesFormat (format?_eq_some hf).1] at hs
        cases hs
    have hstored : (value v format).plain.stored (UInt8.ofNat index') =
        .value ⟨none, v.payload (UInt8.ofNat index')⟩ := by
      rw [plain, stored, hplain]
      rfl
    rw [hstored]
    refine .value ?_
    rw [formatAt_skipped, formatAt_none]
    exact present_payload_congr hregistry hnull (fun s hs => ⟨htext s hs, hplaintext s hs⟩) none

theorem alike_entries (hregistry : ctx'.registry = ctx.registry)
    (hnull : ctx'.nullDisplay = ctx.nullDisplay) (additions : List Addition)
    {before after before' after' : List String}
    (hstrings : ctx.strings.toList = before ++ additions.flatMap Addition.strings ++ after)
    (hcount : before.length + totalSlots additions ≤ maxStringCapacity)
    (hstrings' : ctx'.strings.toList =
      before' ++ (additions.map plain).flatMap Addition.strings ++ after')
    (hcount' : before'.length + totalSlots (additions.map plain) ≤ maxStringCapacity) :
    List.Forall₂ (Stored.Alike ctx true ctx' skipFormats') (entries before.length additions)
      (entries before'.length (additions.map plain)) := by
  induction additions generalizing before before' with
  | nil => exact .nil
  | cons a rest ih =>
    rw [List.map_cons, totalSlots] at hcount'
    rw [totalSlots] at hcount
    rw [List.map_cons] at hstrings' ⊢
    obtain ⟨hget, hmore, hlen⟩ := table_cons hstrings
    obtain ⟨hget', hmore', hlen'⟩ := table_cons hstrings'
    have hrest := ih hmore (by omega) hmore' (by omega)
    rw [hlen, hlen'] at hrest
    exact .cons (alike_stored hregistry hnull a (by omega) hget (by omega) hget') hrest

end Entries

/-! ## What a pass writes and notes -/

section Walks

variable {e : Encoding} {ctx ctx' : Context} {skipFormats skipFormats' : Bool}
  {stored stored' : List Stored}

theorem writeValues_alike (suffix : String)
    (h : List.Forall₂ (Stored.Alike ctx skipFormats ctx' skipFormats') stored stored')
    (out : Output e) :
    writeValues ctx' suffix skipFormats' stored' out =
      writeValues ctx suffix skipFormats stored out := by
  induction h generalizing out with
  | nil => rfl
  | cons hfirst _ ih =>
    cases hfirst with
    | field key hkey hkey' hvalue hform => exact ih out
    | value hvalue =>
      rw [writeValues, writeValues, hvalue]
      split
      · exact ih _
      · rfl
      · rfl

def seen (ctx : Context) (skipFormats : Bool) : List Stored → Output e → List Stored
  | [], _ => []
  | .field key v :: rest, out => .field key v :: seen ctx skipFormats rest out
  | .value v :: rest, out =>
    match (present ctx (formatAt ctx skipFormats v.format) v.payload).write .plain out with
    | (out, .done) => .value v :: seen ctx skipFormats rest out
    | _ => []

theorem seen_alike
    (h : List.Forall₂ (Stored.Alike ctx skipFormats ctx' skipFormats') stored stored')
    (out : Output e) :
    List.Forall₂ (Stored.Alike ctx skipFormats ctx' skipFormats') (seen ctx skipFormats stored out)
      (seen ctx' skipFormats' stored' out) := by
  induction h generalizing out with
  | nil => exact .nil
  | cons hfirst _ ih =>
    cases hfirst with
    | field key hkey hkey' hvalue hform => exact .cons (.field key hkey hkey' hvalue hform) (ih out)
    | value hvalue =>
      rw [seen, seen, hvalue]
      split
      · exact .cons (.value hvalue) (ih _)
      · exact .nil

theorem exists_append_seen (stored : List Stored) (out : Output e) :
    seen ctx skipFormats stored out <+: stored := by
  induction stored generalizing out with
  | nil => exact List.prefix_refl []
  | cons s rest ih =>
    cases s with
    | field key v => exact (List.prefix_cons_inj _).2 (ih out)
    | value v =>
      rw [seen]
      split
      · exact (List.prefix_cons_inj _).2 (ih _)
      · exact List.nil_prefix

theorem fields_walk (suffix : String) (stored : List Stored)
    (hstorable : ∀ s ∈ stored, s.payload.Storable) (marked : Bool) {fuel : Nat}
    (hfuel : stored.length ≤ fuel) (position : Nat) (out : Output e) (fields : FieldList) :
    (walk ctx suffix skipFormats fuel position
        (stored.flatMap Stored.bytes ++ if marked then [Tag.cut.code] else []) out fields).fields =
      (fieldStarts position (seen ctx skipFormats stored out)).foldl FieldList.push fields := by
  induction stored generalizing fuel position out fields with
  | nil =>
    rw [List.flatMap_nil, List.nil_append, walk_end]
    rfl
  | cons s rest ih =>
    obtain ⟨fuel, rfl⟩ : ∃ n, fuel = n + 1 := ⟨fuel - 1, by rw [List.length_cons] at hfuel; omega⟩
    have hs := hstorable s List.mem_cons_self
    have hrest := fun s hs => hstorable s (List.mem_cons_of_mem _ hs)
    have hle : rest.length ≤ fuel := Nat.le_of_succ_le_succ hfuel
    rw [List.flatMap_cons, List.append_assoc]
    cases s with
    | field key v =>
      rw [walk_field hs, seen, ih hrest hle]
      rfl
    | value v =>
      rw [seen]
      generalize hw : (present ctx (formatAt ctx skipFormats v.format) v.payload).write .plain out =
        written
      obtain ⟨after, progress⟩ := written
      cases progress with
      | done =>
        rw [walk_done hs _ _ _ _ hw, ih hrest hle]
        rfl
      | unreadable =>
        rw [walk_unreadable hs _ _ _ _ hw]
        rfl
      | full =>
        rw [walk_full hs _ _ _ _ hw]
        rfl

end Walks

/-! ## The fields and their block -/

end Record

namespace Render

def Field.shown? (ctx : Context) (field : Field) : Option Presentation :=
  (Payload.take? field.tag field.data).map fun taken => present ctx none taken.1

structure Field.Alike (ctx ctx' : Context) (field field' : Field) : Prop where
  key_eq : field'.key = field.key
  form_eq : fieldFormOf field'.tag field'.data = fieldFormOf field.tag field.data
  shown_eq : field'.shown? ctx' = field.shown? ctx

variable {e : Encoding} {ctx ctx' : Context}

theorem writeValue_eq (ctx : Context) (form : Form) (field : Field) (out : Output e) :
    writeValue ctx form field out =
      match field.shown? ctx with
      | none => (out, true)
      | some shown =>
        match shown.write form out with
        | (out, .full) => (out, false)
        | (out, _) => (out, true) := by
  rw [writeValue, Field.shown?]
  cases Payload.take? field.tag field.data <;> rfl

theorem writeField_of_alike {field field' : Field} (h : field.Alike ctx ctx' field')
    (out : Output e) : writeField ctx' field' out = writeField ctx field out := by
  have hvalue : ∀ form, writeValue (e := e) ctx' form field' = writeValue ctx form field := by
    intro form
    funext out
    rw [writeValue_eq, writeValue_eq, h.shown_eq]
  simp only [writeField, h.key_eq, h.form_eq, hvalue]

theorem writeBlock_of_alike {fields fields' : List Field}
    (h : List.Forall₂ (Field.Alike ctx ctx') fields fields') (separator : String)
    (out : Output e) :
    writeBlock ctx' separator fields' out = writeBlock ctx separator fields out := by
  have hmembers : ∀ first, writeMembers (e := e) ctx' first fields' =
      writeMembers ctx first fields := by
    induction h with
    | nil => exact fun _ => rfl
    | cons hfield _ ih =>
      intro first
      funext out
      rw [writeMembers, writeMembers, ih, funext (writeField_of_alike hfield)]
  rw [writeBlock, writeBlock, hmembers]

end Render

namespace Record

section Blocks

variable {ctx ctx' : Context} {skipFormats skipFormats' : Bool} {stored stored' : List Stored}

def FindsAlike (ctx ctx' : Context) (data data' : List UInt8) (offset offset' : Nat) : Prop :=
  ∃ field field', fieldAt? ctx.strings data offset = some field ∧
    fieldAt? ctx'.strings data' offset' = some field' ∧ field.Alike ctx ctx' field'

theorem starts_alike
    (h : List.Forall₂ (Stored.Alike ctx skipFormats ctx' skipFormats') stored stored')
    (hstorable : ∀ s ∈ stored, s.payload.Storable) (hstorable' : ∀ s ∈ stored', s.payload.Storable)
    (front front' back back' : List UInt8) :
    List.Forall₂ (FindsAlike ctx ctx' (front ++ stored.flatMap Stored.bytes ++ back)
        (front' ++ stored'.flatMap Stored.bytes ++ back'))
      (fieldStarts front.length stored) (fieldStarts front'.length stored') := by
  induction h generalizing front front' with
  | nil => exact .nil
  | @cons s s' rest rest' hfirst _ ih =>
    have hlater := ih (fun t ht => hstorable t (List.mem_cons_of_mem _ ht))
      (fun t ht => hstorable' t (List.mem_cons_of_mem _ ht)) (front ++ s.bytes) (front' ++ s'.bytes)
    simp only [fieldStarts, List.flatMap_cons, List.length_append, List.append_assoc] at hlater ⊢
    cases hfirst with
    | value hvalue => exact hlater
    | @field index index' v v' key hkey hkey' hvalue hform =>
      have hread := Payload.take?_bytes v.payload (hstorable _ List.mem_cons_self)
        (rest.flatMap Stored.bytes ++ back)
      have hread' := Payload.take?_bytes v'.payload (hstorable' _ List.mem_cons_self)
        (rest'.flatMap Stored.bytes ++ back')
      have hfound := fieldAt?_stored hkey v front (rest.flatMap Stored.bytes ++ back)
      have hfound' := fieldAt?_stored hkey' v' front' (rest'.flatMap Stored.bytes ++ back')
      rw [List.append_assoc] at hfound hfound'
      refine .cons ⟨_, _, hfound, hfound', rfl, hform _ _, ?_⟩ hlater
      rw [Field.shown?, Field.shown?, hread, hread', Option.map_some, Option.map_some, hvalue]

theorem filterMap_alike {data data' : List UInt8} {offsets offsets' : List Nat}
    (h : List.Forall₂ (FindsAlike ctx ctx' data data') offsets offsets') :
    List.Forall₂ (Field.Alike ctx ctx') (offsets.filterMap (fieldAt? ctx.strings data))
      (offsets'.filterMap (fieldAt? ctx'.strings data')) := by
  induction h with
  | nil => exact .nil
  | cons hfirst _ ih =>
    obtain ⟨field, field', hfound, hfound', halike⟩ := hfirst
    rw [List.filterMap_cons, List.filterMap_cons, hfound, hfound']
    exact .cons halike ih

end Blocks

/-! ## Two records -/

open Addition

structure Whole (r : Record) (added : List Addition) : Prop where
  not_truncated : r.truncated = false
  encoded_eq : r.encoded =
    (entries 0 added).flatMap Stored.bytes ++ if false then [Tag.cut.code] else []
  strings_eq : r.strings.toList = [] ++ added.flatMap Addition.strings ++ []
  totalSlots_le : ([] : List String).length + totalSlots added ≤ maxStringCapacity
  storable : ∀ s ∈ entries 0 added, s.payload.Storable

theorem whole_run {segment : Segment} {capacity serial : Nat} {ops : List Operation}
    (hsize : segment.size < 0x1_0000_0000)
    (hwhole : ((create segment capacity serial).run ops).truncated = false) :
    ((create segment capacity serial).run ops).Whole (Operation.lastAdded ops) := by
  obtain ⟨kept, part, marked, h⟩ := keeps_run segment capacity serial ops
  obtain ⟨hkept, rfl⟩ := h.all_kept hwhole
  rw [← hkept]
  have hroom : ((create segment capacity serial).run ops).segment.size < 0x1_0000_0000 :=
    size_run_lt hsize capacity serial ops
  have hunmarked : marked = false := by
    cases marked with
    | false => rfl
    | true => exact absurd (h.holds.truncated_of_marked rfl) (by rw [hwhole]; exact nofun)
  have hholds := h.holds
  rw [Option.toList_none, List.append_nil, hunmarked] at hholds
  refine ⟨hwhole, hholds.encoded_eq, ?_, ?_, fun s hs => hholds.storable_of_size_lt hroom hs⟩
  · rw [h.strings_eq, List.nil_append, List.append_nil]
  · rw [List.length_nil, Nat.zero_add]
    exact h.totalSlots_le

namespace Whole

variable {r r' : Record} {added : List Addition} (h : r.Whole added)
  (h' : r'.Whole (added.map plain)) (registry : Registry) (settings : Settings)
  (skipFormats : Bool)
include h h'

theorem alike :
    List.Forall₂ (Stored.Alike (r.context registry settings) true (r'.context registry settings)
      skipFormats) (entries 0 added) (entries 0 (added.map plain)) :=
  @alike_entries (r.context registry settings) (r'.context registry settings) skipFormats rfl rfl
    added [] _ [] _ h.strings_eq h.totalSlots_le h'.strings_eq h'.totalSlots_le

variable {e : Encoding} (fields fields' : FieldList) (out : Output e)

theorem render_alike :
    (r'.render registry settings skipFormats fields' out).out =
        (r.render registry settings true fields out).out ∧
      (r'.render registry settings skipFormats fields' out).fitted =
        (r.render registry settings true fields out).fitted := by
  obtain ⟨hfitted, hout⟩ := render_writes registry h.storable h.encoded_eq settings true fields out
  obtain ⟨hfitted', hout'⟩ :=
    render_writes registry h'.storable h'.encoded_eq settings skipFormats fields' out
  rw [hout, hout', hfitted, hfitted', h.not_truncated, h'.not_truncated,
    writeValues_alike _ (h.alike h' registry settings skipFormats)]
  exact ⟨rfl, rfl⟩

omit h' in
theorem offsets_render :
    (r.render registry settings skipFormats fields out).fields.offsets.toList =
      (fieldStarts 0 (seen (r.context registry settings) skipFormats (entries 0 added) out)).take
        fields.capacity := by
  have hwalk := @fields_walk e (r.context registry settings) skipFormats settings.truncatedSuffix
    (entries 0 added) h.storable false _ (length_le_encoded h.encoded_eq) 0 out fields.clear
  rw [← h.encoded_eq, ← fields_render] at hwalk
  rw [hwalk, FieldList.toList_foldl_push]
  rfl

/-- Both passes stop at the same entry, so the fields that they note look alike, also under other
settings. -/
theorem offsets_alike (hcapacity : fields'.capacity = fields.capacity) (displayed : Settings) :
    List.Forall₂ (FindsAlike (r.context registry displayed) (r'.context registry displayed)
        r.encoded r'.encoded)
      (r.render registry settings true fields out).fields.offsets.toList
      (r'.render registry settings skipFormats fields' out).fields.offsets.toList := by
  have hseen := seen_alike (h.alike h' registry settings skipFormats) out
  rw [h.offsets_render, h'.offsets_render, hcapacity]
  have hlength := hseen.length_eq
  obtain ⟨rest, hsplit⟩ :=
    @exists_append_seen e (r.context registry settings) true (entries 0 added) out
  obtain ⟨rest', hsplit'⟩ :=
    @exists_append_seen e (r'.context registry settings) skipFormats (entries 0 (added.map plain)) out
  generalize seen (r.context registry settings) true (entries 0 added) out = before at *
  generalize seen (r'.context registry settings) skipFormats (entries 0 (added.map plain)) out =
    before' at *
  have hshown := List.forall₂_take before.length (h.alike h' registry displayed skipFormats)
  rw [← hsplit, ← hsplit', List.take_left, hlength, List.take_left] at hshown
  have hstorable := h.storable
  have hstorable' := h'.storable
  have hencoded := h.encoded_eq
  have hencoded' := h'.encoded_eq
  rw [← hsplit, List.flatMap_append, List.append_assoc] at hencoded
  rw [← hsplit', List.flatMap_append, List.append_assoc] at hencoded'
  rw [← hsplit] at hstorable
  rw [← hsplit'] at hstorable'
  rw [hencoded, hencoded']
  exact List.forall₂_take _ (starts_alike hshown
    (fun s hs => hstorable s (List.mem_append_left _ hs))
    (fun s hs => hstorable' s (List.mem_append_left _ hs)) [] [] _ _)

theorem renderFields_alike (hcapacity : fields'.capacity = fields.capacity)
    (displayed : Settings) {e' : Encoding} (out' : Output e') :
    r'.renderFields registry displayed
        (r'.render registry settings skipFormats fields' out).fields out' =
      r.renderFields registry displayed (r.render registry settings true fields out).fields
        out' := by
  have hoffsets := h.offsets_alike h' registry settings skipFormats fields fields' out hcapacity
    displayed
  have hempty : (r'.render registry settings skipFormats fields' out).fields.offsets.isEmpty =
      (r.render registry settings true fields out).fields.offsets.isEmpty := by
    have hlength := hoffsets.length_eq
    simp only [Array.length_toList] at hlength
    rw [Array.isEmpty, Array.isEmpty, hlength]
  have hblock := writeBlock_of_alike (e := e') (filterMap_alike hoffsets) displayed.separator out'
  change writeBlock _ _ (List.filterMap (fieldAt? r'.strings r'.encoded) _) _ =
    writeBlock _ _ (List.filterMap (fieldAt? r.strings r.encoded) _) _ at hblock
  simp only [renderFields, hempty, hblock]

end Whole

/-- Two records of the same values, one filled with formats and one without, both whole. If formats
are ignored for the first, every pass over the one shows what the same pass over the other shows,
notes as many fields, and leads to the same block. Formatters may do anything. -/
theorem run_plain {segment segment' : Segment} {capacity capacity' serial serial' : Nat}
    {ops ops' : List Operation} (hsize : segment.size < 0x1_0000_0000)
    (hsize' : segment'.size < 0x1_0000_0000)
    (hwhole : ((create segment capacity serial).run ops).truncated = false)
    (hwhole' : ((create segment' capacity' serial').run ops').truncated = false)
    (hplain : Operation.lastAdded ops' = (Operation.lastAdded ops).map plain) :
    let r := (create segment capacity serial).run ops
    let r' := (create segment' capacity' serial').run ops'
    ∀ (e : Encoding) (registry : Registry) (settings : Settings) (skipFormats : Bool)
      (fields fields' : FieldList) (out : Output e),
      let pass := r.render registry settings true fields out
      let pass' := r'.render registry settings skipFormats fields' out
      pass'.out = pass.out ∧ pass'.fitted = pass.fitted ∧
        r'.renderText registry settings skipFormats out =
          r.renderText registry settings true out ∧
        (fields'.capacity = fields.capacity → pass'.fields.length = pass.fields.length ∧
          ∀ (displayed : Settings) (e' : Encoding) (out' : Output e'),
            r'.renderFields registry displayed pass'.fields out' =
              r.renderFields registry displayed pass.fields out') := by
  intro r r' e registry settings skipFormats fields fields' out pass pass'
  have h := whole_run hsize hwhole
  have h' := whole_run hsize' hwhole'
  rw [hplain] at h'
  obtain ⟨hout, hfitted⟩ := h.render_alike h' registry settings skipFormats fields fields' out
  refine ⟨hout, hfitted, ?_, fun hcapacity => ⟨?_, fun displayed e' out' => ?_⟩⟩
  · rw [renderText_eq r registry settings true fields out,
      renderText_eq r' registry settings skipFormats fields' out]
    exact Prod.ext hout hfitted
  · have hlength := (h.offsets_alike h' registry settings skipFormats fields fields' out hcapacity
      settings).length_eq
    exact hlength.symm
  · exact h.renderFields_alike h' registry settings skipFormats fields fields' out hcapacity
      displayed out'

/-- A number and a null under formats, a text and a field. The text stands at the second place of
one table and at the first of the other. -/
theorem run_plain_number :
    let number : Value := .integer .uint32 255
    let rest : List Operation := [.add (.value (.text "t") none), .add (.field "k" (.bool true))]
    let ops : List Operation := .reset none .info .epoch "main" ::
      .add (.value number (some "X4")) :: .add (.value .null (some "X4")) :: rest
    let ops' : List Operation := .reset none .info .epoch "main" ::
      .add (.value number none) :: .add (.value .null none) :: rest
    let r := (create (Segment.zeroed 64) 4 0).run ops
    let r' := (create (Segment.zeroed 32) 3 1).run ops'
    let out := (r.render .empty {} true {} (Output.bounded utf8 9)).out
    let units : Array UInt8 := out.units
    r.truncated = false ∧ r'.truncated = false ∧ r'.strings ≠ r.strings ∧
      (r'.render .empty {} false {} (Output.bounded utf8 9)).out = out ∧
      units.toList = Utf8.bytes "255nullt" := by
  intro number rest ops ops' r r' out units
  have hwhole : r.truncated = false := by decide
  have hwhole' : r'.truncated = false := by decide
  have h := run_plain (by decide) (by decide) hwhole hwhole' rfl utf8 .empty {} false {} {}
    (Output.bounded utf8 9)
  exact ⟨hwhole, hwhole', by decide, h.1, by decide⟩

end Record
end Logbook
