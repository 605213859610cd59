import Logbook.Proofs.Render.Walk
set_option autoImplicit false

/-!
# Rendering any bytes

A record need not hold what was stored in it: a walk goes over any bytes. They have one text, which
does not depend on the output, and so does what is noted. An output that has room for the text gets
it, and any other a beginning of it and the mark.
-/
namespace Logbook

open Record Render Text

namespace Render

/-- The text of some bytes, up to where they stand for nothing. -/
def shownIn (ctx : Context) (skipFormats : Bool) : (fuel : Nat) → (data : List UInt8) → List Char
  | 0, _ => []
  | fuel + 1, data =>
    match Entry.take? data with
    | none | some (.cut, _) => []
    | some (.field, rest) => shownIn ctx skipFormats fuel rest
    | some (.value format payload, rest) =>
      match (present ctx (formatAt ctx skipFormats format) payload).shown? with
      | some cs => cs ++ shownIn ctx skipFormats fuel rest
      | none => []

variable {e : Encoding}

/-- A pass that writes a text if there is room for it, and else a beginning of it and the mark. -/
structure WritesOrCuts (pass : Output e → Pass e) (text : List Char) (suffix : String)
    (noted : FieldList) : Prop where
  of_hasRoom : ∀ out, out.hasRoom (e.encodeChars text).length = true →
    pass out = ⟨out.add text, noted, true⟩
  of_not_hasRoom : ∀ out, out.hasRoom 0 = true →
    out.hasRoom (e.encodeChars text).length = false →
    ∃ head noted', head <+: text ∧ pass out = ⟨(out.add head).markCut suffix, noted', false⟩

theorem writesOrCuts_nil {pass : Output e → Pass e} {noted : FieldList}
    (h : ∀ out, pass out = ⟨out, noted, true⟩) (suffix : String) :
    WritesOrCuts pass [] suffix noted where
  of_hasRoom out _ := by rw [h, out.add_nil]
  of_not_hasRoom out hzero hroom := by
    rw [Encoding.encodeChars_nil, List.length_nil, hzero] at hroom
    cases hroom

theorem WritesOrCuts.cons {pass rest : Output e → Pass e} {first text : List Char}
    {suffix : String} {noted : FieldList} (h : WritesOrCuts rest text suffix noted)
    (hdone : ∀ out, out.hasRoom (e.encodeChars first).length = true →
      pass out = rest (out.add first))
    (hfull : ∀ out, out.hasRoom 0 = true → out.hasRoom (e.encodeChars first).length = false →
      ∃ noted', pass out = ⟨out.markCut suffix, noted', false⟩) :
    WritesOrCuts pass (first ++ text) suffix noted := by
  constructor
  case of_hasRoom =>
    intro out hroom
    rw [Encoding.encodeChars_append, List.length_append] at hroom
    have hfirst := Output.hasRoom_of_le (Nat.le_add_right _ _) hroom
    rw [← Output.hasRoom_add] at hroom
    rw [hdone out hfirst, h.of_hasRoom _ hroom, Output.add_add]
  case of_not_hasRoom =>
    intro out hzero hroom
    rw [Encoding.encodeChars_append, List.length_append, ← Output.hasRoom_add] at hroom
    cases hfirst : out.hasRoom (e.encodeChars first).length with
    | true =>
      obtain ⟨head, after, hhead, hrest⟩ :=
        h.of_not_hasRoom (out.add first) (by rw [Output.hasRoom_add]; exact hfirst) hroom
      refine ⟨first ++ head, after, (List.prefix_append_right_inj first).2 hhead, ?_⟩
      rw [hdone out hfirst, hrest, Output.add_add]
    | false =>
      obtain ⟨after, hcut⟩ := hfull out hzero hfirst
      exact ⟨[], after, List.nil_prefix, by rw [hcut, out.add_nil]⟩

/-- What the walk over some bytes writes and notes is the same on all outputs with room for it. -/
theorem writesOrCuts_walk {ctx : Context} (hregistry : ctx.registry.All Script.Sound)
    (suffix : String) (skipFormats : Bool) (fuel position : Nat) (data : List UInt8) (fields : FieldList) :
    ∃ noted, WritesOrCuts
      (fun out : Output e => walk ctx suffix skipFormats fuel position data out fields)
      (shownIn ctx skipFormats fuel data) suffix noted := by
  -- the bytes need not be those of any entries, so the induction is on the fuel
  induction fuel generalizing position data fields with
  | zero => exact ⟨fields, writesOrCuts_nil (fun _ => rfl) suffix⟩
  | succ fuel ih =>
    simp only [walk, shownIn]
    generalize Entry.take? data = taken
    cases taken with
    | none => exact ⟨fields, writesOrCuts_nil (fun _ => rfl) suffix⟩
    | some taken =>
      obtain ⟨entry, rest⟩ := taken
      cases entry with
      | cut => exact ⟨fields, writesOrCuts_nil (fun _ => rfl) suffix⟩
      | field => exact ih _ rest _
      | value format payload =>
        simp only
        have hp := present_sound hregistry (formatAt ctx skipFormats format) payload
        generalize present ctx (formatAt ctx skipFormats format) payload = p at hp
        cases hshown : p.shown? with
        | none =>
          refine ⟨fields, writesOrCuts_nil (fun out => ?_) suffix⟩
          rw [Presentation.write_of_shown?_none hshown]
        | some cs =>
          obtain ⟨noted, hrest⟩ := ih (position + (data.length - rest.length)) rest fields
          refine ⟨noted, hrest.cons (fun out hroom => ?_) (fun out hzero hroom => ?_)⟩
          · have hwrite : p.write .plain out = (out.add cs, .done) :=
              Presentation.write_of_hasRoom hp hshown hroom
            rw [hwrite]
          · obtain ⟨part, hwrite⟩ : ∃ part, p.write .plain out = (out.add part, .full) :=
              Presentation.write_of_not_hasRoom hp hshown hroom hzero
            refine ⟨fields, ?_⟩
            rw [hwrite]
            simp only [Output.rewind_add]

end Render

namespace Record

def shownText (r : Record) (registry : Registry) (settings : Settings) (skipFormats : Bool) :
    List Char :=
  shownIn (r.context registry settings) skipFormats r.encoded.length r.encoded

theorem render_any {e : Encoding} {registry : Registry} (hregistry : registry.All Script.Sound)
    (r : Record) (settings : Settings) (skipFormats : Bool) (fields : FieldList) :
    let text := r.shownText registry settings skipFormats
    let suffix := settings.truncatedSuffix
    ∃ noted, ∀ out : Output e,
      (out.hasRoom (e.encodeChars text).length = true →
        r.render registry settings skipFormats fields out =
          ⟨if r.truncated then (out.add text).markCut suffix else out.add text, noted, true⟩) ∧
      (out.hasRoom 0 = true → out.hasRoom (e.encodeChars text).length = false →
        ∃ head noted', head <+: text ∧
          r.render registry settings skipFormats fields out =
            ⟨(out.add head).markCut suffix, noted', false⟩) := by
  intro text suffix
  have hctx : (r.context registry settings).registry.All Script.Sound := hregistry
  obtain ⟨noted, hwalk⟩ := writesOrCuts_walk (e := e) hctx suffix skipFormats
    r.encoded.length 0 r.encoded fields.clear
  refine ⟨noted, fun out => ⟨fun hroom => ?_, fun hzero hroom => ?_⟩⟩
  · have hpass : walk (r.context registry settings) settings.truncatedSuffix skipFormats
        r.encoded.length 0 r.encoded out fields.clear = ⟨out.add text, noted, true⟩ :=
      hwalk.of_hasRoom out hroom
    rw [render]
    simp only [hpass, Bool.true_and]
    split <;> rfl
  · obtain ⟨head, noted', hhead, hcut⟩ := hwalk.of_not_hasRoom out hzero hroom
    have hpass : walk (r.context registry settings) settings.truncatedSuffix skipFormats
        r.encoded.length 0 r.encoded out fields.clear =
          ⟨(out.add head).markCut suffix, noted', false⟩ := hcut
    refine ⟨head, noted', hhead, ?_⟩
    rw [render]
    simp only [hpass, Bool.false_and, Bool.false_eq_true, ↓reduceIte]

end Record
end Logbook
