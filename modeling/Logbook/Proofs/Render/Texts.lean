import Logbook.Proofs.Render.Fields
import Logbook.Proofs.Render.Placed
set_option autoImplicit false

/-!
# Values that have a text

Where an entry is read as a text, a pass writes this text whole and goes on, or takes it back and
ends; what the entry is and what stands around it makes no difference. Where it is not read back,
the pass ends and the text of a field is empty. The entry of a value with a format is found in the bytes
behind the entries of the additions before it, and its format in the table.
-/
namespace Logbook

open Record Render Text

namespace Render

variable {e : Encoding} {ctx : Context}

theorem walk_text {v : StoredValue} (hstorable : v.payload.Storable) {skipFormats : Bool}
    {text : List Char}
    (h : present ctx (formatAt ctx skipFormats v.format) v.payload = .text (String.ofList text))
    (suffix : String) (fuel position : Nat) (rest : List UInt8) (out : Output e)
    (fields : FieldList) :
    let entry := (Stored.value v).bytes
    walk ctx suffix skipFormats (fuel + 1) position (entry ++ rest) out fields =
      if out.hasRoom (e.encodeChars text).length then
        walk ctx suffix skipFormats fuel (position + entry.length) rest (out.add text) fields
      else ⟨out.markCut suffix, fields, false⟩ := by
  intro entry
  have hwrite : (present ctx (formatAt ctx skipFormats v.format) v.payload).write .plain out =
      writeText .plain (String.ofList text) out := by
    rw [h]
    rfl
  cases hroom : out.hasRoom (e.encodeChars text).length with
  | true =>
    have hdone : writeText .plain (String.ofList text) out = (out.add text, .done) := by
      have hwhole := @writeText_of_hasRoom e .plain out (String.ofList text)
      rw [String.toList_ofList] at hwhole
      exact hwhole hroom
    exact walk_done hstorable fuel position rest fields (hwrite.trans hdone)
  | false =>
    have hfull : writeText .plain (String.ofList text) out = (out, .full) := by
      have hnone := @Output.write_of_not_hasRoom e out (String.ofList text)
      rw [String.toList_ofList] at hnone
      rw [writeText, Output.put, hnone hroom]
      rfl
    have hback := out.rewind_add []
    rw [out.add_nil] at hback
    refine (walk_full hstorable fuel position rest fields (hwrite.trans hfull)).trans ?_
    rw [hback]
    rfl

theorem writeValue_text {payload : Payload} (hstorable : payload.Storable) {text : List Char}
    (h : present ctx none payload = .text (String.ofList text)) (form : Form) (key : String)
    (rest : List UInt8) (out : Output e) :
    writeValue ctx form ⟨key, payload.tag, payload.bytes ++ rest⟩ out =
      out.put form (String.ofList text) := by
  have htake := Payload.take?_bytes payload hstorable rest
  rw [writeValue]
  simp only [htake]
  rw [h, Presentation.write, writeText]
  generalize out.put form (String.ofList text) = written
  obtain ⟨after, fitted⟩ := written
  cases fitted <;> rfl

theorem writeValue_unreadable {payload : Payload} (hstorable : payload.Storable)
    (h : present ctx none payload = .unreadable) (form : Form) (key : String)
    (rest : List UInt8) (out : Output e) :
    writeValue ctx form ⟨key, payload.tag, payload.bytes ++ rest⟩ out = (out, true) := by
  have htake := Payload.take?_bytes payload hstorable rest
  rw [writeValue]
  simp only [htake]
  rw [h]
  rfl

/-- Of the values that take a format only the unmanaged ones are of any length, and these have no
text of their own. -/
theorem storable_of_present {v : Value} (htakes : v.takesFormat = true) {index : UInt8}
    {format : Option String} {text : String}
    (h : present ctx format (v.payload index) =
      if v.isReadable then .text text else .unreadable) : (v.payload index).Storable := by
  cases v with
  | unmanaged v => cases h
  | span s | ascii bytes => cases htakes
  | _ => trivial

/-- How a pass takes a value, wherever it stands: if the value is read back, it has a text. -/
structure TakesText (ctx : Context) (v : Value) (text : Option String → List Char) : Prop where
  read : ∀ (format : Option String) (index : UInt8),
    present ctx format (v.payload index) =
      if v.isReadable then .text (String.ofList (text format)) else .unreadable
  walked : ∀ {e : Encoding} (suffix : String) (skipFormats : Bool) (fuel position : Nat)
    (format : Option UInt8) (index : UInt8) (rest : List UInt8) (out : Output e)
    (fields : FieldList),
    let entry := (Stored.value ⟨format, v.payload index⟩).bytes
    let shown := text (formatAt ctx skipFormats format)
    walk ctx suffix skipFormats (fuel + 1) position (entry ++ rest) out fields =
      if v.isReadable then
        if out.hasRoom (e.encodeChars shown).length then
          walk ctx suffix skipFormats fuel (position + entry.length) rest (out.add shown) fields
        else ⟨out.markCut suffix, fields, false⟩
      else ⟨out, fields, true⟩
  field : ∀ {e : Encoding} (form : Form) (key : String) (index : UInt8) (rest : List UInt8)
    (out : Output e),
    let payload := v.payload index
    writeValue ctx form ⟨key, payload.tag, payload.bytes ++ rest⟩ out =
      if v.isReadable then out.put form (String.ofList (text none)) else (out, true)

theorem TakesText.of_read {v : Value} (htakes : v.takesFormat = true)
    {text : Option String → List Char}
    (h : ∀ format index, present ctx format (v.payload index) =
      if v.isReadable then .text (String.ofList (text format)) else .unreadable) :
    TakesText ctx v text where
  read := h
  walked := by
    intro e suffix skipFormats fuel position format index rest out fields entry shown
    have hread := h (formatAt ctx skipFormats format) index
    have hstorable := storable_of_present htakes hread
    cases hr : v.isReadable with
    | true =>
      rw [hr] at hread
      exact walk_text hstorable hread suffix fuel position rest out fields
    | false =>
      rw [hr] at hread
      have hwrite : (present ctx (formatAt ctx skipFormats format) (v.payload index)).write .plain
          out = (out, .unreadable) := by
        rw [hread]
        rfl
      exact walk_unreadable hstorable fuel position rest fields hwrite
  field := by
    intro e form key index rest out payload
    have hread := h none index
    have hstorable := storable_of_present htakes hread
    cases hr : v.isReadable with
    | true =>
      rw [hr] at hread
      exact writeValue_text hstorable hread form key rest out
    | false =>
      rw [hr] at hread
      exact writeValue_unreadable hstorable hread form key rest out

theorem TakesText.shown_eq {v : Value} {text : Option String → List Char}
    (h : TakesText ctx v text) (htakes : v.takesFormat = true) (hreadable : v.isReadable = true)
    (format : Option String) : v.shown ctx.registry ctx.nullDisplay format = text format := by
  -- such a value has no string in the table, so its index does not matter
  have hshown := present_payload ctx format 0 v fun s hs =>
    nomatch (Value.tableText?_of_takesFormat htakes).symm.trans hs
  rw [h.read, if_pos hreadable, if_pos hreadable, Presentation.shown?,
    String.toList_ofList] at hshown
  exact (Option.some.inj hshown).symm

end Render

namespace Record

open Addition

theorem Keeps.encoded_at {r : Record} {asked before after : List Addition} {v : Value}
    {format : Option String} {part : Option Stored} {marked : Bool}
    (h : r.Keeps asked (before ++ .value v format :: after) part marked)
    (htakes : v.takesFormat = true) (registry : Registry) (settings : Settings) :
    ∃ stored index rest,
      r.encoded = (entries 0 before).flatMap Stored.bytes ++
        ((Stored.value ⟨stored, v.payload index⟩).bytes ++ rest) ∧
      ∀ skipFormats, formatAt (r.context registry settings) skipFormats stored =
        if skipFormats then none else format := by
  have hformat : format? (.value v format) = format := if_pos htakes
  have htable : (r.context registry settings).strings.toList =
      before.flatMap Addition.strings ++
        (.value v format :: after).flatMap Addition.strings ++ [] := by
    rw [List.append_nil, ← List.flatMap_append]
    exact h.strings_eq
  obtain ⟨hstrings, -, -⟩ := table_cons htable
  rw [length_strings] at hstrings
  have hindex : totalSlots before + (Addition.value v format).slots ≤ maxStringCapacity := by
    have hle := h.totalSlots_le
    rw [← length_strings, List.flatMap_append, List.length_append, length_strings,
      List.flatMap_cons, List.length_append] at hle
    exact Nat.le_trans (Nat.add_le_add_left (Nat.le_add_right _ _) _) hle
  have hencoded := h.holds.encoded_eq
  rw [entries_append, Nat.zero_add, entries, stored, hformat, List.flatMap_append,
    List.flatMap_append, List.flatMap_cons, List.append_assoc, List.append_assoc,
    List.append_assoc] at hencoded
  exact ⟨_, _, _, hencoded, fun skipFormats =>
    formatAt_stored htakes format hindex hstrings⟩

/-- Wherever the record keeps the value, a pass takes it as `text`, whatever its format. -/
structure ShowsText (r : Record) (kept : List Addition) (part : Option Stored) (registry : Registry)
    (settings : Settings) (v : Value) (text : Option String → List Char) : Prop where
  takes : TakesText (r.context registry settings) v text
  found : ∀ before after format, kept = before ++ .value v format :: after →
    ∃ stored index rest,
      r.encoded = (entries 0 before).flatMap Stored.bytes ++
        ((Stored.value ⟨stored, v.payload index⟩).bytes ++ rest) ∧
      ∀ skipFormats, formatAt (r.context registry settings) skipFormats stored =
        if skipFormats then none else format
  /-- If all before it is read back, the text stands between the texts of what is before and after
  it. There is no more if the value is not read back itself. -/
  shown : registry.All Script.Completes →
    ∀ before after format, kept = before ++ .value v format :: after →
      (∀ a ∈ before, a.isReadable = true) →
      ∀ (e : Encoding) (skipFormats : Bool) (fields : FieldList),
        let texts := allShown registry settings.nullDisplay skipFormats
        (r.render registry settings skipFormats fields (Output.unlimited e)).out =
          (Output.unlimited e).add
            (texts before ++
              (if v.isReadable then
                text (if skipFormats then none else format) ++
                  (texts (after.takeWhile isReadable) ++
                    if after.all isReadable then
                      Stored.shownUntil (r.context registry settings) skipFormats part.toList
                    else [])
              else []) ++
              if r.truncated then settings.truncatedSuffix.toList else [])

theorem Keeps.showsText {r : Record} {asked kept : List Addition} {part : Option Stored}
    {marked : Bool} (h : r.Keeps asked kept part marked) (hsize : r.segment.size < 0x1_0000_0000)
    {v : Value} (htakes : v.takesFormat = true) {registry : Registry} {settings : Settings}
    {text : Option String → List Char} (htext : TakesText (r.context registry settings) v text) :
    r.ShowsText kept part registry settings v text where
  takes := htext
  found := by
    rintro before after format rfl
    exact h.encoded_at htakes registry settings
  shown := by
    rintro hregistry before after format rfl hbefore e skipFormats fields texts
    have hplace := allShown_at hbefore (.value v format) after registry settings.nullDisplay
      skipFormats (Stored.shownUntil (r.context registry settings) skipFormats part.toList)
    rw [h.render_unlimited hsize hregistry settings skipFormats fields, hplace]
    have hreadable : (Addition.value v format).isReadable = v.isReadable := rfl
    rw [hreadable]
    cases hr : v.isReadable with
    | false => rfl
    | true =>
      have hshown : (Addition.value v format).shown registry settings.nullDisplay skipFormats =
          text (if skipFormats then none else format) := htext.shown_eq htakes hr _
      rw [hshown]

end Record
end Logbook
