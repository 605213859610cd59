import Logbook.Proofs.Record.Invariant
import Logbook.Proofs.Render.RoundTrip
set_option autoImplicit false

/-!
# Rendering into a limited output

What an output of limited capacity shows of a record depends on the texts of its entries, on the
mark and on the capacity only: as many whole entries as fit, and where something is missing the
mark, which goes after them, over their end, or stands alone.
-/
namespace Logbook

open Calendar Record Render Text

namespace Render

variable {e : Encoding} {limit : Nat} {suffix : String}

def MarkedText (e : Encoding) (limit : Nat) (base : List Char) (suffix : String)
    (units : List e.CodeUnit) : Prop :=
  if (e.encodeChars base).length + e.measure suffix ≤ limit then
    units = e.encodeChars (base ++ suffix.toList)
  else if e.measure suffix ≤ limit then
    ∃ head, IsLongestWithin (fun cs => (e.encodeChars cs).length) (limit - e.measure suffix) head
        base ∧
      units = e.encodeChars (head ++ suffix.toList)
  else
    ∃ head, IsLongestWithin (fun cs => (e.encodeChars cs).length) limit head suffix.toList ∧
      units = e.encodeChars head

/-- The units of a record whose entries have the given texts, within `limit` units. -/
def BoundedText (e : Encoding) (limit : Nat) (texts : List (List Char)) (truncated : Bool)
    (suffix : String) (units : List e.CodeUnit) : Prop :=
  ∃ kept, IsLongestWithin (fun ts => (e.encodeChars ts.flatten).length) limit kept texts ∧
    if kept = texts ∧ truncated = false then units = e.encodeChars kept.flatten
    else MarkedText e limit kept.flatten suffix units

theorem length_le_of_markedText {base : List Char} {units : List e.CodeUnit}
    (h : MarkedText e limit base suffix units) : units.length ≤ limit := by
  rw [MarkedText] at h
  by_cases hfits : (e.encodeChars base).length + e.measure suffix ≤ limit
  · rw [if_pos hfits] at h
    rw [h, Encoding.encodeChars_append, List.length_append]
    exact hfits
  · rw [if_neg hfits] at h
    by_cases hover : e.measure suffix ≤ limit
    · rw [if_pos hover] at h
      obtain ⟨head, hhead, rfl⟩ := h
      have hle := hhead.size_le
      rw [Encoding.encodeChars_append, List.length_append]
      change _ + e.measure suffix ≤ limit
      omega
    · rw [if_neg hover] at h
      obtain ⟨head, hhead, rfl⟩ := h
      exact hhead.size_le

theorem length_le_of_boundedText {texts : List (List Char)} {truncated : Bool}
    {units : List e.CodeUnit} (h : BoundedText e limit texts truncated suffix units) :
    units.length ≤ limit := by
  obtain ⟨kept, hkept, h⟩ := h
  by_cases hall : kept = texts ∧ truncated = false
  · rw [if_pos hall] at h
    rw [h]
    exact hkept.size_le
  · rw [if_neg hall] at h
    exact length_le_of_markedText h

theorem markedText_marked (e : Encoding) (limit : Nat) (base : List Char) (suffix : String) :
    MarkedText e limit base suffix (e.encodeChars (e.marked limit base suffix)) := by
  rw [MarkedText, Encoding.marked]
  by_cases hfits : (e.encodeChars base).length + e.measure suffix ≤ limit
  · rw [if_pos hfits, if_pos hfits]
  · rw [if_neg hfits, if_neg hfits]
    by_cases hover : e.measure suffix ≤ limit
    · rw [if_pos hover, if_pos hover]
      exact ⟨_, e.fit_isLongest _ _, rfl⟩
    · rw [if_neg hover, if_neg hover]
      exact ⟨_, e.fit_isLongest _ _, rfl⟩

theorem length_marked_le (e : Encoding) (limit : Nat) (base : List Char) (suffix : String) :
    (e.encodeChars (e.marked limit base suffix)).length ≤ limit :=
  length_le_of_markedText (markedText_marked e limit base suffix)

theorem markedText_markCut (he : e.Lawful) {out : Output e} {base : List Char}
    (h : out.Shows limit base) (suffix : String) :
    MarkedText e limit base suffix (out.markCut suffix).units.toList := by
  rw [(h.markCut he suffix).units_eq]
  exact markedText_marked e limit base suffix

end Render

namespace Record

variable {r : Record} {registry : Registry} {entries : List Stored} {marked : Bool}

theorem boundedText_render {e : Encoding} (he : e.Lawful)
    (hregistry : registry.All Script.Sound)
    (hstorable : ∀ s ∈ entries, s.payload.Storable)
    (hencoded : r.encoded =
      entries.flatMap Stored.bytes ++ if marked then [Tag.cut.code] else [])
    (settings : Settings) (skipFormats : Bool) (fields : FieldList) {texts : List (List Char)}
    (hshown : entries.map (Stored.shown? (r.context registry settings) skipFormats) =
      texts.map some) (limit : Nat) :
    BoundedText e limit texts r.truncated settings.truncatedSuffix
      (r.render registry settings skipFormats fields (Output.bounded e limit)).out.units.toList := by
  have hfuel := length_le_encoded hencoded
  have hctx : (r.context registry settings).registry.All Script.Sound :=
    hregistry
  have hout : (Output.bounded e limit).capacity = some limit := rfl
  have hempty : (Output.bounded e limit).units.size = 0 := rfl
  obtain ⟨kept, fields', hkept, hwalk⟩ := walk_bounded settings.truncatedSuffix skipFormats hctx
    entries hstorable marked hshown hfuel 0 hout (Nat.zero_le limit) fields.clear
  have hshows : ((Output.bounded e limit).add kept.flatten).Shows limit kept.flatten :=
    (Output.Shows.bounded limit).add kept.flatten
  have hmark := markedText_markCut he hshows settings.truncatedSuffix
  rw [← hencoded] at hwalk
  rw [hempty, Nat.sub_zero] at hkept
  refine ⟨kept, hkept, ?_⟩
  rw [render]
  by_cases hall : kept = texts
  · rw [if_pos hall] at hwalk
    cases ht : r.truncated with
    | false =>
      rw [if_pos ⟨hall, rfl⟩]
      simp only [hwalk, Bool.and_false, Bool.false_eq_true, ↓reduceIte]
      exact hshows.units_eq
    | true =>
      rw [if_neg (by simp)]
      simp only [hwalk, Bool.and_self, ↓reduceIte]
      exact hmark
  · rw [if_neg hall] at hwalk
    rw [if_neg fun hboth => hall hboth.1]
    simp only [hwalk, Bool.false_and, Bool.false_eq_true, ↓reduceIte]
    exact hmark

/-! ## The entries of a run -/

theorem isSome_present_payload {v : Value} (h : v.isReadable = true) (ctx : Context)
    (format : Option String) (index : UInt8) :
    ∃ cs, (present ctx format (v.payload index)).shown? = some cs := by
  cases ht : v.tableText? with
  | none =>
    have hp := present_payload ctx format index v fun s hs => nomatch ht.symm.trans hs
    rw [h] at hp
    exact ⟨_, hp⟩
  | some s =>
    cases v with
    | text s => exact ⟨_, rfl⟩
    | _ => cases ht

theorem isSome_shown?_of_writes {a : Addition} (h : a.isReadable = true) {s : Stored}
    (hs : a.Writes s) (ctx : Context) (skipFormats : Bool) :
    ∃ cs, s.shown? ctx skipFormats = some cs := by
  rcases hs with ⟨index, rfl⟩ | ⟨room, hpart⟩
  · cases a with
    | value v format => exact isSome_present_payload h ctx _ _
    | field key v => exact ⟨[], rfl⟩
  · cases a with
    | value v format =>
      cases v with
      | span text | ascii bytes =>
        rw [Addition.part?] at hpart
        split at hpart
        · cases hpart
        · obtain rfl := Option.some.inj hpart
          exact ⟨_, rfl⟩
      | _ => cases hpart
    | field key v => cases hpart

def Stored.unlimitedText (ctx : Context) (skipFormats : Bool) : Stored → List Char
  | .value v =>
    ((present ctx (formatAt ctx skipFormats v.format) v.payload).write .plain
      (Output.unlimited utf8)).1.text.toList
  | .field _ _ => []

theorem Stored.unlimitedText_eq {ctx : Context} (hregistry : ctx.registry.All Script.Completes)
    {skipFormats : Bool} {s : Stored} {cs : List Char} (h : s.shown? ctx skipFormats = some cs) :
    s.unlimitedText ctx skipFormats = cs := by
  cases s with
  | field key v => exact Option.some.inj h
  | value v =>
    have hp := present_completes hregistry (formatAt ctx skipFormats v.format) v.payload
    have hout : (Output.unlimited utf8).capacity = none := rfl
    have hunits : ((Output.unlimited utf8).add cs).units.toList = utf8.encodeChars cs := by
      rw [Output.toList_units_add]
      rfl
    rw [Stored.unlimitedText, Presentation.write_unlimited hp h hout]
    simp only [Form.image_plain, Output.text_of_units hunits, String.toList_ofList]

theorem Stored.map_unlimitedText {ctx : Context}
    (hregistry : ctx.registry.All Script.Completes) {skipFormats : Bool} {entries : List Stored}
    (h : ∀ s ∈ entries, ∃ cs, s.shown? ctx skipFormats = some cs) :
    entries.map (Stored.shown? ctx skipFormats) =
      (entries.map (Stored.unlimitedText ctx skipFormats)).map some := by
  rw [List.map_map]
  apply List.map_congr_left
  intro s hs
  obtain ⟨cs, hcs⟩ := h s hs
  rw [Function.comp_apply, Stored.unlimitedText_eq hregistry hcs, hcs]

theorem Stored.shownUntil_eq_flatten {ctx : Context} {skipFormats : Bool}
    {entries : List Stored} {texts : List (List Char)}
    (h : entries.map (Stored.shown? ctx skipFormats) = texts.map some) :
    Stored.shownUntil ctx skipFormats entries = texts.flatten := by
  induction entries generalizing texts with
  | nil =>
    obtain rfl : texts = [] := List.map_eq_nil_iff.1 h.symm
    rfl
  | cons s entries ih =>
    cases texts with
    | nil => cases h
    | cons t texts =>
      obtain ⟨hfirst, hrest⟩ := List.cons.inj h
      rw [Stored.shownUntil, hfirst, List.flatten_cons]
      simp only [ih hrest]

/-- Whatever was done to a record, it renders by the texts of its entries: all of them if there is
no limit, and within a limit as `BoundedText` says; the mark is there if the record was cut or a
text did not fit. -/
theorem run_render (segment : Segment) (capacity serial : Nat) (ops : List Operation)
    (registry : Registry) (hsize : segment.size ≤ maxRegionSize)
    (hregistry : registry.All Script.Sound)
    (hreadable : ∀ a, Operation.add a ∈ ops → a.isReadable = true) :
    let r := (create segment capacity serial).run ops
    ∃ entries marked, r.Holds entries marked ∧
      ∀ e : Encoding, e = utf8 ∨ e = utf16 →
        ∀ (settings : Settings) (skipFormats : Bool) (fields : FieldList) (limit : Nat),
          let texts := entries.map
            (Stored.unlimitedText (r.context registry settings) skipFormats)
          let units :=
            (r.render registry settings skipFormats fields (Output.bounded e limit)).out.units
          let all :=
            (r.render registry settings skipFormats fields (Output.unlimited e)).out.units
          BoundedText e limit texts r.truncated settings.truncatedSuffix units.toList ∧
            units.size ≤ limit ∧
            all.toList = e.encodeChars (texts.flatten ++
              if r.truncated then settings.truncatedSuffix.toList else []) := by
  intro r
  have hstart := Holds.create segment capacity serial
  obtain ⟨entries, marked, h, hshown⟩ := hstart.run
    (fun s => ∀ ctx skipFormats, ∃ cs, s.shown? ctx skipFormats = some cs)
    (fun a ha s hs => isSome_shown?_of_writes (hreadable a ha) hs) (fun _ hs => nomatch hs)
  refine ⟨entries, marked, h, fun e hencoding settings skipFormats fields limit => ?_⟩
  intro texts units all
  have he : e.Lawful := by
    rcases hencoding with rfl | rfl
    · exact utf8_lawful
    · exact utf16_lawful
  have hr : r.segment.size ≤ maxRegionSize :=
    Nat.le_trans (Nat.le_of_eq (hstart.run_room ops).1) hsize
  have hcompletes := Registry.all_completes hregistry
  have htexts : entries.map (Stored.shown? (r.context registry settings) skipFormats) =
      texts.map some :=
    Stored.map_unlimitedText hcompletes fun s hs => hshown s hs _ skipFormats
  have hstorable := fun s hs => h.storable hr (s := s) hs
  have hbounded := boundedText_render he hregistry hstorable h.encoded_eq settings skipFormats
    fields htexts limit
  refine ⟨hbounded, length_le_of_boundedText hbounded, ?_⟩
  have hall := render_unlimited (e := e) hcompletes hstorable h.encoded_eq settings skipFormats
    fields
  rw [Stored.shownUntil_eq_flatten htexts] at hall
  change Array.toList (Output.units _) = _
  rw [hall, Output.toList_units_add]
  rfl

/-- Eleven units have room for the text and the number, but not for the two units of the formatter
as well; the mark goes over all but the first two units. -/
theorem run_render_eleven_units :
    let registry := Registry.empty.registerFormatter 1 fun _ _ => Script.writeAll ["<", ">"]
    let ops : List Operation := [.reset none .info .epoch "main",
      .add (.value (.text "number ") none), .add (.value (.integer .uint16 123) none),
      .add (.value (.unmanaged ⟨1, 0, [], nofun⟩) none)]
    let r := (create (Segment.zeroed 64) 4 0).run ops
    let units : Array UInt8 := (r.render registry { truncatedSuffix := " [CUT]..." } false {}
      (Output.bounded utf8 11)).out.units
    units.size ≤ 11 ∧ units.toList = Utf8.bytes "nu [CUT]..." := by
  intro registry ops r units
  have hregistry : registry.All Script.Sound :=
    Registry.All.registerFormatter nofun 1 fun _ _ => .inl (Script.faithful_writeAll _)
  have hreadable : ∀ a, Operation.add a ∈ ops → a.isReadable = true := by
    intro a ha
    simp only [ops, List.mem_cons, Operation.add.injEq, reduceCtorEq, List.not_mem_nil, false_or,
      or_false] at ha
    rcases ha with rfl | rfl | rfl <;> rfl
  obtain ⟨entries, marked, _, h⟩ := run_render (Segment.zeroed 64) 4 0 ops registry (by decide)
    hregistry hreadable
  exact ⟨(h utf8 (.inl rfl) _ false {} 11).2.1, by decide⟩

end Record
end Logbook
