import Logbook.Line.Formatter
import Logbook.Proofs.Render.Memory
import Logbook.Proofs.Text.Utf8
set_option autoImplicit false

/-!
# Lines in memory

A line, written out on memory. The heading goes token by token, and the attached error prints itself
as it likes; only breaking off is not caught there. An error whose text is written in one piece
gives the line that the formatter gives.

With this, whatever formatters and errors do, and whatever offsets a list of fields has, rendering
comes to its end on every buffer, uses no more than the buffer and leaves whole characters in it.
-/
namespace Logbook

open Record Render Text

namespace Script

def Returns : Script → Prop
  | .write _ next => ∀ fitted, (next fitted).Returns
  | .finish _ => True
  | .abort => False

variable {e : Encoding}

theorem run_of_returns {s : Script} (h : s.Returns) (form : Form) (out : Output e) :
    (s.run form out).2 ≠ .aborted := by
  induction s generalizing out with
  | write text next ih => exact ih _ (h _) _
  | finish complete => cases complete <;> exact nofun
  | abort => exact h.elim

theorem run_writeAll (texts : List String) (out : Output e) :
    (writeAll texts).run .plain out =
      ((out.writeAll texts).1, if (out.writeAll texts).2 then .complete else .incomplete) := by
  induction texts generalizing out with
  | nil => rfl
  | cons text rest ih =>
    rw [writeAll, run, Output.put, Output.writeAll]
    generalize out.write text = written
    obtain ⟨after, fitted⟩ := written
    cases fitted with
    | true => exact ih after
    | false => rfl

end Script

namespace Line.Formatter

open Memory

def writeError? (suffix : String) : Option Script → Work utf8 Unit
  | none => pure ()
  | some error => do
    let mark ← length
    let line := Script.write "\n" fun fitted => if fitted then error else .finish false
    match ← line.run? .plain with
    | .complete => return ()
    | .incomplete =>
      rewind? mark
      markCut? suffix
    | .aborted => failure

def writeRest? (f : Formatter) (registry : Registry) (r : Record) (error : Option Script)
    (fields : FieldList) : Work utf8 Unit := do
  if ← r.renderFields? registry f.settings fields then
    writeError? f.settings.truncatedSuffix error

def writeTo? (f : Formatter) (registry : Registry) (r : Record) (error : Option Script) :
    Work utf8 FieldList := do
  if ← writeAll? (f.heading.tokens.map (Token.text r)) then
    let (list, fitted) ← r.render? registry f.settings false (some f.fields)
    let fields := list.getD f.fields
    if fitted then f.writeRest? registry r error fields
    return fields
  else
    rewind? 0
    markCut? f.settings.truncatedSuffix
    return f.fields

def plainError (r : Record) : Option Script := r.exception.map fun text => .writeAll [text]

section Steps

variable {m : Memory utf8} {out : Output utf8} {r : Record}

theorem hasRoom_zero_of_carries (h : m.Carries out) : out.hasRoom 0 = true := by
  cases h with
  | @buffer cells used _ capacity_eq used_le units_eq whole =>
    have hused := (Carries.buffer capacity_eq used_le units_eq whole).used_eq
    rw [Output.hasRoom, capacity_eq]
    exact decide_eq_true (by omega)
  | growing capacity_eq _ _ => exact Output.hasRoom_unlimited capacity_eq 0

theorem writeException_eq (hzero : out.hasRoom 0 = true) (suffix text : String)
    (hexception : r.exception = some text) :
    writeException suffix r out =
      match (out.writeAll ["\n", text]) with
      | (after, true) => after
      | (_, false) => out.markCut suffix := by
  have htext : ("\n" ++ text).toList = ["\n", text].flatMap String.toList := by
    rw [String.toList_append, List.flatMap_cons, List.flatMap_cons, List.flatMap_nil,
      List.append_nil]
  have hone := Output.writes_write (e := utf8) ("\n" ++ text)
  have htwo := Output.writes_writeAll (e := utf8) ["\n", text]
  rw [writeException, hexception]
  rw [← htext] at htwo
  cases hroom : out.hasRoom (utf8.encodeChars ("\n" ++ text).toList).length with
  | true =>
    have hw : out.writeAll ["\n", text] = _ := htwo.of_hasRoom out hroom
    simp only [hone.of_hasRoom out hroom, hw]
  | false =>
    have hback := out.rewind_add []
    rw [out.add_nil] at hback
    have hfull : (out.writeAll ["\n", text]).2 = false := htwo.of_not_hasRoom out hzero hroom
    generalize out.writeAll ["\n", text] = written at hfull
    obtain ⟨after, fitted⟩ := written
    obtain rfl : fitted = false := hfull
    simp only [Output.write_of_not_hasRoom hroom, hback]

theorem leads_writeError (h : m.Carries out) (suffix : String) {error : Option Script}
    (herror : ∀ s ∈ error, s.Returns) :
    ∃ after, Leads (writeError? suffix error m) (after, ()) ∧ after.capacity = out.capacity ∧
      (error = plainError r → after = writeException suffix r out) := by
  cases error with
  | none =>
    refine ⟨out, leads_pure h (), rfl, fun hplain => ?_⟩
    have hexception : r.exception = none := Option.map_eq_none_iff.1 hplain.symm
    rw [writeException, hexception]
  | some error =>
    rw [writeError?]
    generalize hline : (Script.write "\n" fun fitted => if fitted then error else .finish false) =
      line
    have hreturns : line.Returns := by
      rw [← hline]
      intro fitted
      cases fitted with
      | true => exact herror error rfl
      | false => trivial
    have hplain : some error = plainError r → ∃ text, r.exception = some text ∧
        line = Script.writeAll ["\n", text] := by
      intro hplain
      obtain ⟨text, htext, rfl⟩ := Option.map_eq_some_iff.1 hplain.symm
      exact ⟨text, htext, hline.symm⟩
    have hzero := hasRoom_zero_of_carries h
    have hrun := adds_run (e := utf8) .plain line
    have hleads := fun m' (h' : Memory.Carries m' out) => hrun.leads h'
    have hrewind := fun m' => hrun.leads_rewind utf8_lawful h.whole (m := m')
    have hending := line.run_of_returns hreturns .plain out
    have hcapacity : (line.run .plain out).1.capacity = out.capacity := by
      obtain ⟨part, hpart⟩ := hrun.appends out
      rw [hpart, Output.capacity_add]
    have hsame : some error = plainError r → writeException suffix r out =
        match line.run .plain out with
        | (after, .complete) => after
        | _ => out.markCut suffix := by
      intro h
      obtain ⟨text, hexception, rfl⟩ := hplain h
      rw [writeException_eq hzero suffix text hexception, Script.run_writeAll]
      generalize out.writeAll ["\n", text] = written
      obtain ⟨after, fitted⟩ := written
      cases fitted <;> rfl
    generalize line.run .plain out = ran at hleads hrewind hending hcapacity hsame
    obtain ⟨after, ending⟩ := ran
    cases ending with
    | complete =>
      refine ⟨after, ?_, hcapacity, fun h => (hsame h).symm⟩
      refine (leads_length h).bind fun m₁ h₁ => ?_
      exact (hleads m₁ h₁).bind fun m₂ h₂ => leads_pure h₂ ()
    | incomplete =>
      refine ⟨out.markCut suffix, ?_, Output.capacity_markCut out suffix,
        fun h => (hsame h).symm⟩
      refine (leads_length h).bind fun m₁ h₁ => ?_
      refine (hleads m₁ h₁).bind fun m₂ h₂ => ?_
      exact (hrewind m₂ h₂).bind fun m₃ h₃ => leads_markCut utf8_lawful h₃ suffix
    | aborted => exact absurd rfl hending

theorem writeAll_heading (f : Formatter) (r : Record) (hzero : out.hasRoom 0 = true) :
    (out.writeAll (f.heading.tokens.map (Token.text r)) = out.write (f.heading.text r) ∧
      (out.write (f.heading.text r)).2 = true) ∨
    (∃ part, out.writeAll (f.heading.tokens.map (Token.text r)) = (out.add part, false)) ∧
      out.write (f.heading.text r) = (out, false) := by
  have htext : (f.heading.text r).toList =
      (f.heading.tokens.map (Token.text r)).flatMap String.toList := String.toList_join
  have hall := Output.writes_writeAll (e := utf8) (f.heading.tokens.map (Token.text r))
  rw [← htext] at hall
  cases hroom : out.hasRoom (utf8.encodeChars (f.heading.text r).toList).length with
  | true =>
    rw [Output.write_of_hasRoom hroom]
    exact .inl ⟨hall.of_hasRoom out hroom, rfl⟩
  | false =>
    obtain ⟨part, hpart⟩ := hall.appends out
    exact .inr ⟨⟨part, Prod.ext hpart (hall.of_not_hasRoom out hzero hroom)⟩,
      Output.write_of_not_hasRoom hroom⟩

variable (f : Formatter) (registry : Registry) (hr : r.position ≤ r.segment.size)
include hr

theorem leads_writeRest (h : m.Carries out) (fields : FieldList) {error : Option Script}
    (herror : ∀ s ∈ error, s.Returns) :
    ∃ after, Leads (f.writeRest? registry r error fields m) (after, ()) ∧
      after.capacity = out.capacity ∧
      (error = plainError r → after = f.writeRest registry r fields out) := by
  have hfields := leads_renderFields utf8_lawful hr registry f.settings fields h
  have hcapacity := capacity_renderFields utf8_lawful r registry f.settings fields out
  have hrest : f.writeRest registry r fields out =
      if (r.renderFields registry f.settings fields out).2 then
        writeException f.settings.truncatedSuffix r (r.renderFields registry f.settings fields out).1
      else (r.renderFields registry f.settings fields out).1 := by
    rw [writeRest]
    generalize r.renderFields registry f.settings fields out = written
    obtain ⟨after, fitted⟩ := written
    cases fitted <;> rfl
  rw [hrest]
  generalize r.renderFields registry f.settings fields out = written at hfields hcapacity
  obtain ⟨after, fitted⟩ := written
  obtain ⟨m₁, hm₁, h₁⟩ := hfields
  cases fitted with
  | false =>
    have hwork : f.writeRest? registry r error fields m = some ((), m₁) := bind_eq hm₁ _
    exact ⟨after, ⟨m₁, hwork, h₁⟩, hcapacity, fun _ => rfl⟩
  | true =>
    obtain ⟨after', hleads, hcapacity', hplain⟩ :=
      leads_writeError h₁ f.settings.truncatedSuffix herror
    have hwork : f.writeRest? registry r error fields m =
        writeError? f.settings.truncatedSuffix error m₁ := bind_eq hm₁ _
    rw [hwork]
    exact ⟨after', hleads, hcapacity'.trans hcapacity, hplain⟩

theorem leads_writeTo {size : Nat} (hsize : out.capacity = some size) (h : m.Carries out)
    {error : Option Script} (herror : ∀ s ∈ error, s.Returns) :
    ∃ after, Leads (f.writeTo? registry r error m) (after, (f.writeTo registry r out).2) ∧
      after.capacity = some size ∧
      (error = plainError r → after = (f.writeTo registry r out).1) := by
  have hheading := leads_writeAll h (f.heading.tokens.map (Token.text r))
  rcases writeAll_heading f r (hasRoom_zero_of_carries h) with
    ⟨hsame, hfits⟩ | ⟨⟨part, hall⟩, hwrite⟩
  · have hcapacity := out.capacity_write (f.heading.text r)
    rw [hsame] at hheading
    rw [writeTo]
    generalize out.write (f.heading.text r) = written at hheading hfits hcapacity
    obtain ⟨headed, fitted⟩ := written
    obtain rfl : fitted = true := hfits
    obtain ⟨m₁, hm₁, h₁⟩ := hheading
    have hlist : ((some f.fields).map fun _ => f.fields) = some f.fields := rfl
    have hrender := leads_render utf8_lawful hr registry f.settings false hlist h₁
    have hout := capacity_out_render r registry f.settings false f.fields headed
    simp only
    generalize r.render registry f.settings false f.fields headed = pass at hrender hout
    obtain ⟨m₂, hm₂, h₂⟩ := hrender
    have hpass : pass.out.capacity = some size := hout.trans (hcapacity.trans hsize)
    cases hfitted : pass.fitted with
    | false =>
      have hwork : f.writeTo? registry r error m = some (pass.fields, m₂) := by
        rw [writeTo?, bind_eq hm₁, if_pos rfl, bind_eq hm₂]
        simp only [hfitted]
        rfl
      exact ⟨pass.out, ⟨m₂, hwork, h₂⟩, hpass, fun _ => rfl⟩
    | true =>
      obtain ⟨after, ⟨m₃, hm₃, h₃⟩, hafter, hplain⟩ :=
        leads_writeRest f registry hr h₂ pass.fields herror
      have hwork : f.writeTo? registry r error m = some (pass.fields, m₃) := by
        rw [writeTo?, bind_eq hm₁, if_pos rfl, bind_eq hm₂]
        simp only [hfitted]
        exact bind_eq hm₃ _
      exact ⟨after, ⟨m₃, hwork, h₃⟩, hafter.trans hpass, hplain⟩
  · rw [hall] at hheading
    have hempty : (out.add part).rewind 0 = out.rewind 0 := by
      rw [Output.rewind, Output.rewind]
      simp [Output.add]
    have hwhole : utf8.WellFormed ((out.add part).rewind 0).units.toList :=
      ⟨[], by simp [Output.rewind]⟩
    rw [writeTo, hwrite]
    refine ⟨(out.rewind 0).markCut f.settings.truncatedSuffix, ?_,
      (Output.capacity_markCut _ _).trans hsize, fun _ => rfl⟩
    refine hheading.bind fun m₁ h₁ => ?_
    refine (leads_rewind_bounded h₁ hsize hwhole).bind fun m₂ h₂ => ?_
    rw [hempty] at h₂
    exact (leads_markCut utf8_lawful h₂ _).bind fun m₃ h₃ => leads_pure h₃ f.fields

end Steps
end Line.Formatter

namespace Memory

variable {e : Encoding} {α : Type}

/-- Started on a buffer, whatever its cells hold, the work comes to its end. The buffer has as many
cells as before, and those in use are the whole characters that the output holds. -/
def Fills (work : Work e α) (cells : List e.CodeUnit) (result : Output e × α) : Prop :=
  ∃ after used, work (.buffer cells 0) = some (result.2, .buffer after used) ∧
    after.length = cells.length ∧ used ≤ cells.length ∧ e.WellFormed (after.take used) ∧
    after.take used = result.1.units.toList

theorem carries_buffer (cells : List e.CodeUnit) :
    (Memory.buffer cells 0).Carries (Output.bounded e cells.length) :=
  .buffer rfl (Nat.zero_le _) rfl ⟨[], rfl⟩

theorem fills_of_leads {work : Work e α} {cells : List e.CodeUnit} {result : Output e × α}
    (h : Leads (work (.buffer cells 0)) result) (hcapacity : result.1.capacity = some cells.length) :
    Fills work cells result := by
  obtain ⟨m, hm, hcarries⟩ := h
  cases hcarries with
  | @buffer after used _ capacity_eq used_le units_eq whole =>
    have hlen : after.length = cells.length :=
      Option.some.inj (capacity_eq.symm.trans hcapacity)
    exact ⟨after, used, hm, hlen, hlen ▸ used_le, units_eq ▸ whole, units_eq⟩
  | growing capacity_eq _ _ =>
    rw [hcapacity] at capacity_eq
    cases capacity_eq

def textOf (bytes : List UInt8) : String := (String.fromUTF8? ⟨bytes.toArray⟩).getD ""

theorem textOf_eq (out : Output utf8) : textOf out.units.toList = out.text := by
  change (String.fromUTF8? ⟨out.units.toList.toArray⟩).getD "" = _
  rw [Array.toArray_toList]
  rfl

theorem bytes_textOf {bytes : List UInt8} (h : utf8.WellFormed bytes) :
    Utf8.bytes (textOf bytes) = bytes := by
  obtain ⟨cs, rfl⟩ := h
  have hunits : (Output.unlimited utf8 |>.add cs).units.toList = utf8.encodeChars cs := by
    rw [Output.toList_units_add]
    rfl
  have htext := Output.text_of_units hunits
  rw [← textOf_eq, hunits] at htext
  rw [htext, Utf8.bytes, String.toList_ofList]

end Memory

namespace Record

open Memory

variable {e : Encoding}

structure FillsBuffer (r : Record) (registry : Registry) (settings : Settings) (skipFormats : Bool)
    (fields : FieldList) (cells : List e.CodeUnit) : Prop where
  render : let pass := r.render registry settings skipFormats fields (Output.bounded e cells.length)
    Fills (r.render? registry settings skipFormats (some fields)) cells
      (pass.out, (some pass.fields, pass.fitted))
  renderText :
    let written := r.renderText registry settings skipFormats (Output.bounded e cells.length)
    Fills (r.render? registry settings skipFormats none) cells (written.1, (none, written.2))
  renderFields : Fills (r.renderFields? registry settings fields) cells
    (r.renderFields registry settings fields (Output.bounded e cells.length))

theorem fillsBuffer (he : e.Lawful) {r : Record} (hr : r.position ≤ r.segment.size)
    (registry : Registry) (settings : Settings) (skipFormats : Bool) (fields : FieldList)
    (cells : List e.CodeUnit) : r.FillsBuffer registry settings skipFormats fields cells where
  render := by
    have hlist : ((some fields).map fun _ => fields) = some fields := rfl
    exact fills_of_leads (leads_render he hr registry settings skipFormats hlist
      (carries_buffer cells)) (capacity_out_render r registry settings skipFormats fields _)
  renderText := by
    have hlist : (none.map fun (_ : FieldList) => fields) = none := rfl
    rw [renderText_eq r registry settings skipFormats fields]
    exact fills_of_leads (leads_render he hr registry settings skipFormats hlist
      (carries_buffer cells)) (capacity_out_render r registry settings skipFormats fields _)
  renderFields := fills_of_leads (leads_renderFields he hr registry settings fields
    (carries_buffer cells)) (capacity_renderFields he r registry settings fields _)

def toText? (r : Record) (registry : Registry) (settings : Settings) : Work utf8 Bool := do
  let (list, _) ← r.render? registry settings false (some {})
  r.renderFields? registry settings (list.getD {})

theorem toText?_eq {r : Record} (hr : r.position ≤ r.segment.size) (registry : Registry)
    (settings : Settings) :
    ∃ answer, r.toText? registry settings (.growing []) =
      some (answer, .growing (Utf8.bytes (r.toText registry settings))) := by
  have hstart : (Memory.growing []).Carries (Output.unlimited utf8) := .growing rfl rfl ⟨[], rfl⟩
  have hlist : ((some ({} : FieldList)).map fun _ => ({} : FieldList)) = some {} := rfl
  have hrender := leads_render utf8_lawful hr registry settings false hlist hstart
  have hout := capacity_out_render r registry settings false {} (Output.unlimited utf8)
  rw [toText]
  generalize r.render registry settings false {} (Output.unlimited utf8) = pass at hrender hout
  obtain ⟨m₁, hm₁, h₁⟩ := hrender
  obtain ⟨m₂, hm₂, h₂⟩ := leads_renderFields utf8_lawful hr registry settings pass.fields h₁
  have hcapacity := capacity_renderFields utf8_lawful r registry settings pass.fields pass.out
  generalize r.renderFields registry settings pass.fields pass.out = written at hm₂ h₂ hcapacity
  have hwork : r.toText? registry settings (.growing []) = some (written.2, m₂) :=
    (bind_eq hm₁ _).trans hm₂
  refine ⟨written.2, hwork.trans ?_⟩
  cases h₂ with
  | buffer capacity_eq _ _ _ =>
    rw [hcapacity, hout] at capacity_eq
    cases capacity_eq
  | growing _ units_eq whole =>
    have hbytes := bytes_textOf whole
    rw [textOf_eq] at hbytes
    simp only [hbytes, units_eq]

end Record

namespace Line.Formatter

open Memory

/-- A line comes to its end in its buffer, and reading it back loses nothing. -/
theorem exists_writeTo? (f : Formatter) (registry : Registry) {r : Record}
    (hr : r.position ≤ r.segment.size) {error : Option Script} (herror : ∀ s ∈ error, s.Returns)
    {buffer : List UInt8} (hbuffer : buffer.length = f.capacity) :
    ∃ noted after used,
      f.writeTo? registry r error (.buffer buffer 0) = some (noted, .buffer after used) ∧
      after.length = f.capacity ∧ used ≤ f.capacity ∧
      Utf8.bytes (textOf (after.take used)) = after.take used ∧
      (error = plainError r → (f.format registry r).1.text = textOf (after.take used) ∧
        (f.format registry r).2.fields = noted) := by
  have hcarries := carries_buffer (e := utf8) buffer
  have hlength : List.length (α := utf8.CodeUnit) buffer = f.capacity := hbuffer
  rw [hlength] at hcarries
  obtain ⟨out, hleads, hcapacity, hplain⟩ :=
    leads_writeTo f registry hr (Eq.refl (some f.capacity)) hcarries herror
  obtain ⟨after, used, hwork, hsize, hused, hwhole, hunits⟩ :=
    fills_of_leads hleads (hcapacity.trans (congrArg some hbuffer.symm))
  refine ⟨_, after, used, hwork, hsize.trans hbuffer, hbuffer ▸ hused, bytes_textOf hwhole, ?_⟩
  intro hown
  have htext : textOf (after.take used) = out.text :=
    (congrArg textOf hunits).trans (textOf_eq out)
  have hout : out = (f.write registry r).1 := hplain hown
  rw [hout] at htext
  simp only [format]
  exact ⟨htext.symm, rfl⟩

end Line.Formatter

open Memory

/-- Whatever formatters, errors and lists of fields do, rendering comes to its end without an access
beyond the memory it was given and leaves whole characters there, and no text is lost when a line is
read back from its buffer. -/
theorem rendering_is_safe (segment : Segment) (capacity serial : Nat) (ops : List Operation)
    (registry : Registry) (settings : Settings) (skipFormats : Bool) (fields : FieldList)
    (f : Line.Formatter) (error : Option Script) (herror : ∀ s ∈ error, s.Returns)
    (buffer : List UInt8) (hbuffer : buffer.length = f.capacity) :
    let r := (create segment capacity serial).run ops
    (∀ cells : List utf8.CodeUnit, r.FillsBuffer registry settings skipFormats fields cells) ∧
    (∀ cells : List utf16.CodeUnit, r.FillsBuffer registry settings skipFormats fields cells) ∧
    (∃ answer, r.toText? registry settings (.growing []) =
      some (answer, .growing (Utf8.bytes (r.toText registry settings)))) ∧
    ∃ noted after used, f.writeTo? registry r error (.buffer buffer 0) =
        some (noted, .buffer after used) ∧
      after.length = f.capacity ∧ used ≤ f.capacity ∧
      Utf8.bytes (textOf (after.take used)) = after.take used ∧
      (error = Line.Formatter.plainError r →
        (f.format registry r).1.text = textOf (after.take used) ∧
          (f.format registry r).2.fields = noted) := by
  intro r
  have htrivial : ∀ a, .add a ∈ ops → ∀ s, a.Writes s → True := fun _ _ _ _ => trivial
  obtain ⟨entries, marked, hholds, -⟩ :=
    (Holds.create segment capacity serial).run _ htrivial (List.forall_mem_nil _)
  have hr : r.position ≤ r.segment.size := hholds.position_le
  exact ⟨fun cells => fillsBuffer utf8_lawful hr registry settings skipFormats fields cells,
    fun cells => fillsBuffer utf16_lawful hr registry settings skipFormats fields cells,
    toText?_eq hr registry settings, f.exists_writeTo? registry hr herror hbuffer⟩

/-- The error goes on after a write that does not fit, and says that all went well. -/
theorem rendering_is_safe_stubborn_error :
    let r := (create (Segment.zeroed 0) 0 0).run []
    let f : Line.Formatter := { heading := ⟨[]⟩, settings := {}, capacity := 5 }
    let error : Option Script := some (.attempt (.finish true) ["€€", "x"])
    let buffer : List UInt8 := List.replicate 5 0xff
    (∀ s ∈ error, s.Returns) ∧ buffer.length = f.capacity ∧
      ∃ noted after used, f.writeTo? .empty r error (.buffer buffer 0) =
          some (noted, .buffer after used) ∧ used ≤ f.capacity ∧
        Utf8.bytes (textOf (after.take used)) = after.take used ∧
        after.take used = Utf8.bytes "\nx" := by
  intro r f error buffer
  have herror : ∀ s ∈ error, s.Returns := by
    intro s hs
    obtain rfl : Script.attempt (.finish true) ["€€", "x"] = s := Option.some.inj hs
    intro _ _
    trivial
  obtain ⟨-, -, -, noted, after, used, hwork, -, hused, hbytes, -⟩ :=
    rendering_is_safe (Segment.zeroed 0) 0 0 [] .empty {} false {} f error herror buffer rfl
  have hrun : f.writeTo? .empty r error (.buffer buffer 0) =
      some ({}, .buffer ([10, 120, 255, 255, 255] : List UInt8) 2) := rfl
  have hsame := hwork.symm.trans hrun
  refine ⟨herror, rfl, noted, after, used, hwork, hused, hbytes, ?_⟩
  cases hsame
  rfl

end Logbook
