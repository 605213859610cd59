import Logbook.Line.Formatter
import Logbook.Proofs.Render.Walk
set_option autoImplicit false

/-!
# Formatters that break off

A formatter that breaks off has as good as never been registered. Whatever it wrote before is taken
back, on any output and inside a quoted string as well, so the bytes of its values are shown with
two digits each as if their type had no formatter, and nothing around them changes: neither the rest
of the text nor the fields noted nor where a text is cut.
-/
namespace Logbook

open Record Render Text

namespace Registry

def without (registry : Registry) (gone : TypeToken → Bool) : Registry :=
  { registry with formatters := registry.formatters.filter fun f => !gone f.1 }

/-- The formatters of the types that are gone break off, whatever they are given. -/
def BreakOff (registry : Registry) (gone : TypeToken → Bool) : Prop :=
  ∀ token formatter, registry.formatter? token = some formatter → gone token = true →
    ∀ bytes format, (formatter bytes format).BreaksOff

variable (registry : Registry) (gone : TypeToken → Bool) {token : TypeToken}

theorem formatter?_without_of_gone (h : gone token = true) :
    (registry.without gone).formatter? token = none := by
  rw [formatter?, Option.map_eq_none_iff, List.find?_eq_none]
  intro f hf htoken
  obtain rfl : f.1 = token := of_decide_eq_true htoken
  have hkept : (!gone f.1) = true := (List.mem_filter.1 hf).2
  rw [h] at hkept
  cases hkept

theorem formatter?_without_of_kept (h : gone token = false) :
    (registry.without gone).formatter? token = registry.formatter? token := by
  rw [formatter?, formatter?, without, List.find?_filter]
  congr 2
  funext f
  by_cases hf : f.1 = token
  · simp [hf, h]
  · simp [hf]

end Registry

namespace Render

def upperDigit (n : Nat) : Char := "0123456789ABCDEF".toList.getD n '0'

def unmanagedText (bytes : List UInt8) : String :=
  String.ofList ("Unmanaged(0x".toList ++
    bytes.flatMap (fun b => [upperDigit (b.toNat / 16), upperDigit (b.toNat % 16)]) ++ [')'])

theorem hexadecimal_byte (b : UInt8) : Number.zeroPad 2 (Number.hexadecimal true b.toNat) =
    [upperDigit (b.toNat / 16), upperDigit (b.toNat % 16)] := by
  have hdigits : ∀ n : Fin 256, Number.zeroPad 2 (Number.hexadecimal true n.val) =
      [upperDigit (n.val / 16), upperDigit (n.val % 16)] := by
    decide +kernel
  exact hdigits ⟨b.toNat, b.toNat_lt⟩

theorem hexDump_eq (bytes : List UInt8) : hexDump bytes = unmanagedText bytes := by
  have hbytes := funext hexadecimal_byte
  unfold hexDump unmanagedText
  rw [hbytes]

/-- Two contexts in which every payload is written alike. -/
structure Context.Alike (a b : Context) : Prop where
  strings : a.strings = b.strings
  write : ∀ {e : Encoding} (form : Form) (out : Output e) (format : Option String) (p : Payload),
    (present a format p).write form out = (present b format p).write form out

section Alike

variable {e : Encoding} {a b : Context} (h : a.Alike b)
include h

theorem formatAt_alike (skipFormats : Bool) (index : Option UInt8) :
    formatAt a skipFormats index = formatAt b skipFormats index := by
  rw [formatAt, formatAt, h.strings]

theorem walk_alike (suffix : String) (skipFormats : Bool) (fuel position : Nat)
    (data : List UInt8) (out : Output e) (fields : FieldList) :
    walk a suffix skipFormats fuel position data out fields =
      walk b suffix skipFormats fuel position data out fields := by
  induction fuel generalizing position data out fields with
  | zero => rfl
  | succ fuel ih =>
    rw [walk, walk]
    simp only [formatAt_alike h, h.write, ih]

theorem walkText_alike (suffix : String) (skipFormats : Bool) (fuel : Nat) (data : List UInt8)
    (out : Output e) :
    walkText a suffix skipFormats fuel data out = walkText b suffix skipFormats fuel data out := by
  induction fuel generalizing data out with
  | zero => rfl
  | succ fuel ih =>
    rw [walkText, walkText]
    simp only [formatAt_alike h, h.write, ih]

theorem writeValue_alike (form : Form) (field : Field) :
    writeValue (e := e) a form field = writeValue b form field := by
  funext out
  rw [writeValue, writeValue]
  simp only [h.write]

theorem writeField_alike (field : Field) :
    writeField (e := e) a field = writeField b field := by
  funext out
  rw [writeField, writeField]
  simp only [writeValue_alike h]

theorem writeMembers_alike (first : Bool) (fields : List Field) :
    writeMembers (e := e) a first fields = writeMembers b first fields := by
  induction fields generalizing first with
  | nil => rfl
  | cons field rest ih =>
    funext out
    rw [writeMembers, writeMembers, writeField_alike h, ih]

theorem writeBlock_alike (separator : String) (fields : List Field) (out : Output e) :
    writeBlock a separator fields out = writeBlock b separator fields out := by
  rw [writeBlock, writeBlock, writeMembers_alike h]

end Alike

theorem write_unmanaged_of_gone {e : Encoding} {ctx : Context} {gone : TypeToken → Bool}
    (h : ctx.registry.BreakOff gone) {token : TypeToken} (htoken : gone token = true)
    (format : Option String) (bytes : List UInt8) (form : Form) (out : Output e) :
    (present ctx format (.unmanaged token bytes)).write form out =
      writeText form (hexDump bytes) out := by
  rw [present]
  cases hformatter : ctx.registry.formatter? token with
  | none => rfl
  | some formatter =>
    have hbreaks := h token formatter hformatter htoken bytes format
    exact Presentation.write_of_aborted (Script.run_of_breaksOff hbreaks form out)

theorem alike_without {ctx : Context} {gone : TypeToken → Bool} (h : ctx.registry.BreakOff gone) :
    ({ ctx with registry := ctx.registry.without gone } : Context).Alike ctx where
  strings := rfl
  write form out format p := by
    cases p with
    | unmanaged token bytes =>
      cases htoken : gone token with
      | true =>
        rw [write_unmanaged_of_gone h htoken, present,
          ctx.registry.formatter?_without_of_gone gone htoken]
        rfl
      | false => rw [present, present, ctx.registry.formatter?_without_of_kept gone htoken]
    -- the names of enum values stand in both registries
    | _ => rfl

end Render

namespace Record

variable {e : Encoding} {registry registry' : Registry} {r : Record} {settings : Settings}
  (h : (r.context registry' settings).Alike (r.context registry settings))
include h

theorem render_alike (skipFormats : Bool) (fields : FieldList) (out : Output e) :
    r.render registry' settings skipFormats fields out =
      r.render registry settings skipFormats fields out := by
  rw [render, render, walk_alike h]

theorem renderText_alike (skipFormats : Bool) (out : Output e) :
    r.renderText registry' settings skipFormats out =
      r.renderText registry settings skipFormats out := by
  rw [renderText, renderText, walkText_alike h]

theorem renderFields_alike (fields : FieldList) (out : Output e) :
    r.renderFields registry' settings fields out = r.renderFields registry settings fields out := by
  rw [renderFields, renderFields]
  simp only [writeBlock_alike h]

theorem toText_alike : r.toText registry' settings = r.toText registry settings := by
  rw [toText, toText, render_alike h, renderFields_alike h]

end Record

theorem Line.Formatter.writeTo_alike {registry registry' : Registry} {r : Record}
    {f : Line.Formatter}
    (h : (r.context registry' f.settings).Alike (r.context registry f.settings))
    (out : Output utf8) : f.writeTo registry' r out = f.writeTo registry r out := by
  rw [writeTo, writeTo]
  simp only [Record.render_alike h, writeRest, Record.renderFields_alike h]

/-- Without the formatters that break off every record is rendered the same: its text, the fields
noted and the outcome, its fields and its line, on every output. The values of their types are
written as two digits for each byte, or fail as that text does. -/
theorem broken_formatters_as_unregistered {registry : Registry} {gone : TypeToken → Bool}
    (h : registry.BreakOff gone) (r : Record) (settings : Settings) :
    (∀ {e : Encoding} (skipFormats : Bool) (fields : FieldList) (out : Output e),
      r.render (registry.without gone) settings skipFormats fields out =
          r.render registry settings skipFormats fields out ∧
        r.renderText (registry.without gone) settings skipFormats out =
          r.renderText registry settings skipFormats out ∧
        r.renderFields (registry.without gone) settings fields out =
          r.renderFields registry settings fields out) ∧
      r.toText (registry.without gone) settings = r.toText registry settings ∧
      (∀ (f : Line.Formatter) (out : Output utf8),
        f.writeTo (registry.without gone) r out = f.writeTo registry r out ∧
          f.format (registry.without gone) r = f.format registry r) ∧
      ∀ {e : Encoding} (token : TypeToken), gone token = true →
        ∀ (format : Option String) (bytes : List UInt8) (form : Form) (out : Output e),
          (present (r.context registry settings) format (.unmanaged token bytes)).write form out =
            writeText form (unmanagedText bytes) out := by
  have halike : ∀ settings : Settings,
      (r.context (registry.without gone) settings).Alike (r.context registry settings) := by
    intro settings
    have hctx : (r.context registry settings).registry.BreakOff gone := h
    exact alike_without hctx
  refine ⟨fun skipFormats fields out => ⟨?_, ?_, ?_⟩, ?_, fun f out => ⟨?_, ?_⟩, ?_⟩
  · exact Record.render_alike (halike settings) skipFormats fields out
  · exact Record.renderText_alike (halike settings) skipFormats out
  · exact Record.renderFields_alike (halike settings) fields out
  · exact Record.toText_alike (halike settings)
  · exact Line.Formatter.writeTo_alike (halike f.settings) out
  · have hwrite : f.write (registry.without gone) r = f.write registry r :=
      Line.Formatter.writeTo_alike (halike f.settings) _
    rw [Line.Formatter.format, Line.Formatter.format, hwrite]
  · intro e token htoken format bytes form out
    rw [write_unmanaged_of_gone h htoken, hexDump_eq]

/-- A formatter that fills the output before it breaks off leaves nothing there, and the text of its
two bytes is cut. -/
theorem broken_formatters_as_unregistered_cut :
    let registry := Registry.empty.registerFormatter 7#64
      fun _ _ => Script.attempt .abort ["partly", "\"", "written"]
    let gone : TypeToken → Bool := fun token => decide (token = 7#64)
    let r := (((create (Segment.zeroed 64) 4).reset none .info .epoch "main").append
      (.text "v=")).append (.unmanaged ⟨7#64, 2, [(0, [10, 255])], by decide⟩)
    registry.BreakOff gone ∧
      r.renderText registry {} false (Output.bounded utf8 12) =
        r.renderText (registry.without gone) {} false (Output.bounded utf8 12) ∧
      (r.renderText registry {} false (Output.bounded utf8 12)).1.text = " [TRUNCATED]" ∧
      (r.renderText registry {} false (Output.bounded utf8 24)).1.text =
        "v=Unmanaged(0x0AFF)" := by
  intro registry gone r
  have h : registry.BreakOff gone := by
    intro token formatter hformatter htoken bytes format
    obtain rfl : token = 7#64 := of_decide_eq_true htoken
    obtain rfl : formatter = fun _ _ => Script.attempt .abort ["partly", "\"", "written"] :=
      (Option.some.inj hformatter).symm
    exact fun _ _ _ => trivial
  have hsame := ((broken_formatters_as_unregistered h r {}).1 (e := utf8) false {}
    (.bounded utf8 12)).2.1
  exact ⟨h, hsame.symm, by decide +kernel, by decide +kernel⟩

end Logbook
