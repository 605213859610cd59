import Logbook.Render.Walk
import Logbook.Proofs.Record.Stored
import Logbook.Proofs.Render.Presentation
set_option autoImplicit false

/-!
# Walking over the entries of a record

The walk takes the entries in order, whatever their number, up to an end marker or the end of the
bytes. Without a limit it writes the texts of all entries before the first unreadable one; with a
limit the texts of as many entries as fit.
-/
namespace Logbook

open Record Render Text

def Registry.All (P : Script → Prop) (registry : Registry) : Prop :=
  ∀ token formatter, registry.formatter? token = some formatter →
    ∀ bytes format, P (formatter bytes format)

theorem Registry.all_completes {registry : Registry} (h : registry.All Script.Sound) :
    registry.All Script.Completes :=
  fun token formatter htoken bytes format =>
    Script.completes_of_sound (h token formatter htoken bytes format)

theorem Registry.formatter?_registerFormatter (registry : Registry) (token other : TypeToken)
    (formatter : Formatter) :
    (registry.registerFormatter token formatter).formatter? other =
      if token = other then some formatter else registry.formatter? other := by
  rw [formatter?, registerFormatter, List.find?_cons]
  by_cases h : token = other
  · simp only [h, decide_true, ↓reduceIte, Option.map_some]
  · simp only [h, decide_false, ↓reduceIte]
    rw [List.find?_filter, formatter?]
    congr 2
    funext f
    -- a formatter that is found has the token that is looked for, so it was not taken out
    by_cases hf : f.1 = other
    · simp [hf, Ne.symm h]
    · simp [hf]

theorem Registry.All.registerFormatter {P : Script → Prop} {registry : Registry}
    (h : registry.All P) (token : TypeToken) {formatter : Formatter}
    (hformatter : ∀ bytes format, P (formatter bytes format)) :
    (registry.registerFormatter token formatter).All P := by
  intro other found hfound
  rw [formatter?_registerFormatter] at hfound
  split at hfound
  · cases hfound
    exact hformatter
  · exact h other found hfound

namespace Record.Stored

def shown? (ctx : Context) (skipFormats : Bool) : Stored → Option (List Char)
  | .value v => (present ctx (formatAt ctx skipFormats v.format) v.payload).shown?
  | .field _ _ => some []

def shownUntil (ctx : Context) (skipFormats : Bool) : List Stored → List Char
  | [] => []
  | s :: rest =>
    match s.shown? ctx skipFormats with
    | some cs => cs ++ shownUntil ctx skipFormats rest
    | none => []

end Record.Stored

namespace Render

variable {e : Encoding} {ctx : Context} {suffix : String} {skipFormats : Bool}

theorem stampText_ne_raw (stamp : Option Calendar.Stamp) (format format' : Option String)
    (formatter : Option Formatter) (bytes : List UInt8) :
    stampText stamp format ≠ .raw formatter bytes format' := by
  cases stamp <;> nofun

theorem formatter?_of_present {format format' : Option String} {p : Payload}
    {formatter : Formatter} {bytes : List UInt8}
    (h : present ctx format p = .raw (some formatter) bytes format') :
    ∃ token, ctx.registry.formatter? token = some formatter := by
  cases p with
  | unmanaged token raw =>
    rw [present] at h
    injection h with hformatter _ _
    exact ⟨token, hformatter⟩
  | instant utc seconds nanos => exact absurd h (stampText_ne_raw _ _ _ _ _)
  | date number => exact absurd h (stampText_ne_raw _ _ _ _ _)
  | time second nanos => exact absurd h (stampText_ne_raw _ _ _ _ _)
  | _ => cases h

theorem present_all {P : Script → Prop} (h : ctx.registry.All P) (format : Option String)
    (p : Payload) : (present ctx format p).All P := by
  cases hp : present ctx format p with
  | raw formatter bytes format' =>
    cases formatter with
    | none => trivial
    | some formatter =>
      obtain ⟨token, htoken⟩ := formatter?_of_present hp
      exact h token formatter htoken bytes format'
  | _ => trivial

theorem present_completes (h : ctx.registry.All Script.Completes) (format : Option String)
    (p : Payload) : (present ctx format p).Completes :=
  present_all h format p

theorem present_sound (h : ctx.registry.All Script.Sound)
    (format : Option String) (p : Payload) : (present ctx format p).Sound :=
  present_all h format p

theorem walk_end (marked : Bool) (fuel position : Nat) (out : Output e) (fields : FieldList) :
    walk ctx suffix skipFormats fuel position (if marked then [Tag.cut.code] else []) out fields =
      ⟨out, fields, true⟩ := by
  cases fuel with
  | zero => rfl
  | succ fuel => cases marked <;> rfl

section Steps

variable {s : StoredValue} (h : s.payload.Storable) (fuel position : Nat) (rest : List UInt8)
  (fields : FieldList)
include h

theorem walk_field (key : UInt8) (out : Output e) :
    walk ctx suffix skipFormats (fuel + 1) position ((Stored.field key s).bytes ++ rest) out
        fields =
      walk ctx suffix skipFormats fuel (position + (Stored.field key s).bytes.length) rest out
        (fields.push position) := by
  rw [walk, Entry.take?_field h]
  simp only [List.length_append, Nat.add_sub_cancel]

theorem walk_done {out after : Output e}
    (hw : (present ctx (formatAt ctx skipFormats s.format) s.payload).write .plain out =
      (after, .done)) :
    walk ctx suffix skipFormats (fuel + 1) position ((Stored.value s).bytes ++ rest) out fields =
      walk ctx suffix skipFormats fuel (position + (Stored.value s).bytes.length) rest after
        fields := by
  rw [walk, Entry.take?_value h]
  simp only [hw, List.length_append, Nat.add_sub_cancel]

theorem walk_unreadable {out after : Output e}
    (hw : (present ctx (formatAt ctx skipFormats s.format) s.payload).write .plain out =
      (after, .unreadable)) :
    walk ctx suffix skipFormats (fuel + 1) position ((Stored.value s).bytes ++ rest) out fields =
      ⟨after, fields, true⟩ := by
  rw [walk, Entry.take?_value h]
  simp only [hw]

theorem walk_full {out after : Output e}
    (hw : (present ctx (formatAt ctx skipFormats s.format) s.payload).write .plain out =
      (after, .full)) :
    walk ctx suffix skipFormats (fuel + 1) position ((Stored.value s).bytes ++ rest) out fields =
      ⟨(after.rewind out.length).markCut suffix, fields, false⟩ := by
  rw [walk, Entry.take?_value h]
  simp only [hw]

end Steps

variable (suffix skipFormats)

/-- Without a limit the texts of all entries are written, up to the first unreadable one. -/
theorem walk_unlimited (hregistry : ctx.registry.All Script.Completes) (entries : List Stored)
    (hstorable : ∀ s ∈ entries, s.payload.Storable) (marked : Bool) {fuel : Nat}
    (hfuel : entries.length ≤ fuel) (position : Nat) {out : Output e} (hout : out.capacity = none)
    (fields : FieldList) :
    ∃ fields', walk ctx suffix skipFormats fuel position
        (entries.flatMap Stored.bytes ++ if marked then [Tag.cut.code] else []) out fields =
      ⟨out.add (Stored.shownUntil ctx skipFormats entries), fields', true⟩ := by
  induction entries generalizing fuel position out fields with
  | nil =>
    refine ⟨fields, ?_⟩
    rw [Stored.shownUntil, out.add_nil]
    exact walk_end marked fuel position out fields
  | cons s entries ih =>
    obtain ⟨fuel, rfl⟩ : ∃ n, fuel = n + 1 := ⟨fuel - 1, by rw [List.length_cons] at hfuel; omega⟩
    have hs := hstorable s List.mem_cons_self
    have hrest := fun s hs => hstorable s (List.mem_cons_of_mem _ hs)
    have hle : entries.length ≤ fuel := Nat.le_of_succ_le_succ hfuel
    rw [List.flatMap_cons, List.append_assoc]
    cases s with
    | field key v =>
      rw [walk_field hs]
      exact ih hrest hle _ hout _
    | value v =>
      have hp := present_completes hregistry (formatAt ctx skipFormats v.format) v.payload
      cases hshown : (present ctx (formatAt ctx skipFormats v.format) v.payload).shown? with
      | none =>
        refine ⟨fields, ?_⟩
        rw [walk_unreadable hs _ _ _ _ (Presentation.write_of_shown?_none hshown .plain out),
          Stored.shownUntil, Stored.shown?, hshown]
        simp only [Output.add_nil]
      | some cs =>
        rw [walk_done hs _ _ _ _ (Presentation.write_unlimited hp hshown hout),
          Stored.shownUntil, Stored.shown?, hshown]
        simp only [← Output.add_add]
        have hcapacity : (out.add cs).capacity = none := hout
        exact ih hrest hle _ hcapacity _

/-- With a limit the texts of as many entries are written as fit, all of them or with a mark that
the text is cut. -/
theorem walk_bounded (hregistry : ctx.registry.All Script.Sound)
    (entries : List Stored) (hstorable : ∀ s ∈ entries, s.payload.Storable) (marked : Bool)
    {texts : List (List Char)}
    (hshown : entries.map (Stored.shown? ctx skipFormats) = texts.map some) {fuel : Nat}
    (hfuel : entries.length ≤ fuel) (position : Nat) {limit : Nat} {out : Output e}
    (hout : out.capacity = some limit) (hsize : out.units.size ≤ limit) (fields : FieldList) :
    ∃ kept fields',
      IsLongestWithin (fun ts => (e.encodeChars ts.flatten).length) (limit - out.units.size) kept
        texts ∧
      walk ctx suffix skipFormats fuel position
          (entries.flatMap Stored.bytes ++ if marked then [Tag.cut.code] else []) out fields =
        if kept = texts then ⟨out.add kept.flatten, fields', true⟩
        else ⟨(out.add kept.flatten).markCut suffix, fields', false⟩ := by
  induction entries generalizing fuel position out fields texts with
  | nil =>
    obtain rfl : texts = [] := List.map_eq_nil_iff.1 hshown.symm
    refine ⟨[], fields, isLongestWithin_nil (Nat.zero_le _), ?_⟩
    rw [if_pos rfl, List.flatten_nil, out.add_nil]
    exact walk_end marked fuel position out fields
  | cons s entries ih =>
    obtain ⟨fuel, rfl⟩ : ∃ n, fuel = n + 1 := ⟨fuel - 1, by rw [List.length_cons] at hfuel; omega⟩
    obtain ⟨t, texts, rfl⟩ : ∃ t ts, texts = t :: ts := by
      cases texts with
      | nil => cases hshown
      | cons t ts => exact ⟨t, ts, rfl⟩
    rw [List.map_cons, List.map_cons] at hshown
    obtain ⟨hfirst, hothers⟩ := List.cons.inj hshown
    have hs := hstorable s List.mem_cons_self
    have hrest := fun s hs => hstorable s (List.mem_cons_of_mem _ hs)
    have hle : entries.length ≤ fuel := Nat.le_of_succ_le_succ hfuel
    have hcost : ∀ ts : List (List Char), (e.encodeChars (t :: ts).flatten).length =
        (e.encodeChars t).length + (e.encodeChars ts.flatten).length := by
      intro ts
      rw [List.flatten_cons, Encoding.encodeChars_append, List.length_append]
    rw [List.flatMap_cons, List.append_assoc]
    cases s with
    | field key v =>
      obtain rfl : [] = t := Option.some.inj hfirst
      obtain ⟨kept, fields', hkept, hwalk⟩ :=
        ih hrest hothers hle (position + (Stored.field key v).bytes.length) hout hsize
          (fields.push position)
      refine ⟨[] :: kept, fields', isLongestWithin_cons hcost (Nat.zero_le _) hkept, ?_⟩
      rw [walk_field hs, hwalk]
      simp only [List.cons.injEq, true_and, List.flatten_cons, List.nil_append]
    | value v =>
      have hp := present_sound hregistry (formatAt ctx skipFormats v.format) v.payload
      by_cases hfits : (e.encodeChars t).length ≤ limit - out.units.size
      · -- the text takes its units from the room of the entries that follow
        have hroom := (Output.hasRoom_bounded hout hsize _).trans (decide_eq_true hfits)
        have hnow := out.size_units_add t
        have hcapacity : (out.add t).capacity = some limit := hout
        obtain ⟨kept, fields', hkept, hwalk⟩ :=
          ih hrest hothers hle (position + (Stored.value v).bytes.length) hcapacity (by omega)
            fields
        rw [hnow, Nat.sub_add_eq] at hkept
        refine ⟨t :: kept, fields', isLongestWithin_cons hcost hfits hkept, ?_⟩
        have hwrite : (present ctx (formatAt ctx skipFormats v.format) v.payload).write .plain out =
            (out.add t, .done) := Presentation.write_of_hasRoom hp hfirst hroom
        rw [walk_done hs _ _ _ _ hwrite, hwalk]
        simp only [List.cons.injEq, true_and, List.flatten_cons, Output.add_add]
      · have hroom := (Output.hasRoom_bounded hout hsize _).trans (decide_eq_false hfits)
        have hzero : out.hasRoom 0 = true := Output.hasRoom_bounded hout hsize 0
        -- whatever the formatter left of the text is taken back before the mark is placed
        obtain ⟨part, hwrite⟩ : ∃ part,
            (present ctx (formatAt ctx skipFormats v.format) v.payload).write .plain out =
              (out.add part, .full) := Presentation.write_of_not_hasRoom hp hfirst hroom hzero
        refine ⟨[], fields, isLongestWithin_of_misfit (Nat.zero_le _) ?_, ?_⟩
        · intro ts
          rw [hcost]
          omega
        · rw [walk_full hs _ _ _ _ hwrite, Output.rewind_add, if_neg (List.cons_ne_nil t texts).symm,
            List.flatten_nil, out.add_nil]

end Render

namespace Record

variable {e : Encoding} {r : Record} {registry : Registry} {entries : List Stored} {marked : Bool}

theorem length_le_encoded (hencoded : r.encoded =
    entries.flatMap Stored.bytes ++ if marked then [Tag.cut.code] else []) :
    entries.length ≤ r.encoded.length := by
  have hle := Stored.length_le_flatMap_bytes entries
  rw [hencoded, List.length_append]
  omega

theorem render_unlimited (hregistry : registry.All Script.Completes)
    (hstorable : ∀ s ∈ entries, s.payload.Storable)
    (hencoded : r.encoded =
      entries.flatMap Stored.bytes ++ if marked then [Tag.cut.code] else [])
    (settings : Settings) (skipFormats : Bool) (fields : FieldList) :
    (r.render registry settings skipFormats fields (Output.unlimited e)).out =
      (Output.unlimited e).add
        (Stored.shownUntil (r.context registry settings) skipFormats entries ++
          if r.truncated then settings.truncatedSuffix.toList else []) := by
  have hfuel := length_le_encoded hencoded
  have hctx : (r.context registry settings).registry.All Script.Completes := hregistry
  have hout : (Output.unlimited e).capacity = none := rfl
  obtain ⟨fields', hwalk⟩ := walk_unlimited settings.truncatedSuffix skipFormats hctx entries
    hstorable marked hfuel 0 hout fields.clear
  rw [← hencoded] at hwalk
  rw [render]
  simp only [hwalk, Bool.true_and]
  by_cases ht : r.truncated = true
  · rw [if_pos ht, if_pos ht, ← Output.add_add]
    have hadd : ((Output.unlimited e).add (Stored.shownUntil (r.context registry settings)
        skipFormats entries)).capacity = none := hout
    exact Output.markCut_of_hasRoom (Output.hasRoom_unlimited hadd _)
  · rw [if_neg ht, if_neg ht, List.append_nil]

end Record
end Logbook
