import Logbook.Render.Presentation
import Logbook.Proofs.Script
set_option autoImplicit false

/-!
# Writing a presentation

Every presentation that is not unreadable has one text. Where that text fits it is written, and
where it does not, going back to where it began leaves the output as it was. The text of a formatter
is what it prints if it is never refused; one that breaks off has the text of its bytes.
-/
namespace Logbook.Render

open Record Text

variable {e : Encoding}

namespace Presentation

def shown? : Presentation → Option (List Char)
  | .text s => some s.toList
  | .raw none bytes _ => some (hexDump bytes).toList
  | .raw (some formatter) bytes format =>
    some ((formatter bytes format).printed.getD (hexDump bytes).toList)
  | .unreadable => none

/-- A formatter is true to its contract as long as nothing is refused. -/
def Completes : Presentation → Prop
  | .raw (some formatter) bytes format => (formatter bytes format).Completes
  | _ => True

def Sound : Presentation → Prop
  | .raw (some formatter) bytes format => (formatter bytes format).Sound
  | _ => True

def All (P : Script → Prop) : Presentation → Prop
  | .raw (some formatter) bytes format => P (formatter bytes format)
  | _ => True

end Presentation

theorem writeText_of_hasRoom {form : Form} {out : Output e} {text : String}
    (h : out.hasRoom (e.encodeChars (form.image text.toList)).length = true) :
    writeText form text out = (out.add (form.image text.toList), .done) := by
  rw [writeText, (Output.writes_put form text).of_hasRoom out h]
  rfl

theorem writeText_of_not_hasRoom {form : Form} {out : Output e} {text : String}
    (h : out.hasRoom (e.encodeChars (form.image text.toList)).length = false)
    (hzero : out.hasRoom 0 = true) :
    ∃ part, writeText form text out = (out.add part, .full) := by
  have hput := Output.writes_put (e := e) form text
  have hfull := hput.of_not_hasRoom out hzero h
  obtain ⟨part, hpart⟩ := hput.appends out
  refine ⟨part, ?_⟩
  rw [writeText]
  generalize out.put form text = written at hfull hpart
  obtain ⟨after, fitted⟩ := written
  obtain rfl : after = out.add part := hpart
  obtain rfl : fitted = false := hfull
  rfl

namespace Presentation

theorem write_of_aborted {formatter : Formatter} {bytes : List UInt8} {format : Option String}
    {form : Form} {out : Output e} (h : ((formatter bytes format).run form out).2 = .aborted) :
    (raw (some formatter) bytes format).write form out =
      writeText form (hexDump bytes) out := by
  have hback := (formatter bytes format).rewind_run form out
  rw [write]
  generalize (formatter bytes format).run form out = ended at h hback
  obtain ⟨after, ending⟩ := ended
  obtain rfl : ending = .aborted := h
  simp only at hback ⊢
  rw [hback]

theorem write_of_shown?_none {p : Presentation} (h : p.shown? = none) (form : Form)
    (out : Output e) : p.write form out = (out, .unreadable) := by
  cases p with
  | text s => cases h
  | raw formatter bytes format => cases formatter <;> cases h
  | unreadable => rfl

theorem shown?_of_write_unreadable {p : Presentation} {form : Form} {out after : Output e}
    (h : p.write form out = (after, .unreadable)) : p.shown? = none := by
  have htext : ∀ (text : String) (out : Output e), (writeText form text out).2 ≠ .unreadable := by
    intro text out
    rw [writeText]
    generalize out.put form text = written
    obtain ⟨after, fitted⟩ := written
    cases fitted <;> nofun
  cases p with
  | text s => exact absurd (congrArg Prod.snd h) (htext s out)
  | raw formatter bytes format =>
    cases formatter with
    | none => exact absurd (congrArg Prod.snd h) (htext _ out)
    | some formatter =>
      rw [write] at h
      generalize (formatter bytes format).run form out = ended at h
      obtain ⟨middle, ending⟩ := ended
      cases ending with
      | complete => cases h
      | incomplete => cases h
      | aborted => exact absurd (congrArg Prod.snd h) (htext _ _)
  | unreadable => rfl

theorem write_appends (p : Presentation) (form : Form) (out : Output e) :
    ∃ part, (p.write form out).1 = out.add part := by
  have htext : ∀ text, ∃ part, (writeText form text out).1 = out.add part := by
    intro text
    obtain ⟨part, hpart⟩ := (Output.writes_put form text).appends out
    exact ⟨part, hpart⟩
  cases p with
  | text s => exact htext s
  | raw formatter bytes format =>
    cases formatter with
    | none => exact htext _
    | some formatter =>
      obtain ⟨part, hpart⟩ := (formatter bytes format).run_appends form out
      have hback := (formatter bytes format).rewind_run form out
      rw [write]
      generalize (formatter bytes format).run form out = ended at hpart hback
      obtain ⟨after, ending⟩ := ended
      cases ending with
      | complete => exact ⟨part, hpart⟩
      | incomplete => exact ⟨part, hpart⟩
      | aborted =>
        simp only at hback ⊢
        rw [hback]
        exact htext _
  | unreadable => exact ⟨[], out.add_nil.symm⟩

theorem write_unlimited {p : Presentation} (hp : p.Completes) {cs : List Char}
    (hcs : p.shown? = some cs) {form : Form} {out : Output e} (hout : out.capacity = none) :
    p.write form out = (out.add (form.image cs), .done) := by
  have hroom := Output.hasRoom_unlimited hout
  have htext : ∀ text, writeText form text out = (out.add (form.image text.toList), .done) :=
    fun text => writeText_of_hasRoom (hroom _)
  cases p with
  | text s =>
    obtain rfl := Option.some.inj hcs
    exact htext _
  | raw formatter bytes format =>
    cases formatter with
    | none =>
      obtain rfl := Option.some.inj hcs
      exact htext _
    | some formatter =>
      have hrun := @Script.run_unlimited _ _ hp form _ hout
      cases hprinted : (formatter bytes format).printed with
      | some printed =>
        rw [shown?, hprinted, Option.getD_some] at hcs
        obtain rfl := Option.some.inj hcs
        rw [hprinted] at hrun
        simp only at hrun
        rw [write, hrun]
      | none =>
        rw [shown?, hprinted, Option.getD_none] at hcs
        obtain rfl := Option.some.inj hcs
        rw [hprinted] at hrun
        rw [write_of_aborted hrun]
        exact htext _
  | unreadable => cases hcs

theorem write_succeeds_of_hasRoom {p : Presentation} (hp : p.All Script.Succeeds) {cs : List Char}
    (hcs : p.shown? = some cs) {form : Form} {out : Output e}
    (hroom : out.hasRoom (e.encodeChars (form.image cs)).length = true) :
    p.write form out = (out.add (form.image cs), .done) := by
  cases p with
  | text s =>
    obtain rfl := Option.some.inj hcs
    exact writeText_of_hasRoom hroom
  | raw formatter bytes format =>
    cases formatter with
    | none =>
      obtain rfl := Option.some.inj hcs
      exact writeText_of_hasRoom hroom
    | some formatter =>
      obtain ⟨printed, hprinted⟩ := Script.printed_of_succeeds hp
      rw [shown?, hprinted, Option.getD_some] at hcs
      obtain rfl := Option.some.inj hcs
      rw [write, Script.run_succeeds_of_hasRoom hp hprinted hroom]
  | unreadable => cases hcs

theorem succeeds_or_breaksOff {p : Presentation} (hp : p.Sound) :
    p.All Script.Succeeds ∨ ∃ formatter bytes format, p = .raw (some formatter) bytes format ∧
      (formatter bytes format).BreaksOff := by
  cases p with
  | raw formatter bytes format =>
    cases formatter with
    | none => exact .inl trivial
    | some formatter =>
      rcases hp with hfaithful | hbreaks
      · exact .inl (Script.succeeds_of_faithful hfaithful)
      · exact .inr ⟨formatter, bytes, format, rfl, hbreaks⟩
  | _ => exact .inl trivial

theorem write_of_hasRoom {p : Presentation} (hp : p.Sound) {cs : List Char}
    (hcs : p.shown? = some cs) {form : Form} {out : Output e}
    (hroom : out.hasRoom (e.encodeChars (form.image cs)).length = true) :
    p.write form out = (out.add (form.image cs), .done) := by
  rcases succeeds_or_breaksOff hp with hsucceeds | ⟨formatter, bytes, format, rfl, hbreaks⟩
  · exact write_succeeds_of_hasRoom hsucceeds hcs hroom
  · rw [shown?, Script.printed_of_breaksOff hbreaks, Option.getD_none] at hcs
    obtain rfl := Option.some.inj hcs
    rw [write_of_aborted (Script.run_of_breaksOff hbreaks form out)]
    exact writeText_of_hasRoom hroom

/-- Of a text that does not fit some may be left, which the caller takes back. -/
theorem write_of_not_hasRoom {p : Presentation} (hp : p.Sound) {cs : List Char}
    (hcs : p.shown? = some cs) {form : Form} {out : Output e}
    (hroom : out.hasRoom (e.encodeChars (form.image cs)).length = false)
    (hzero : out.hasRoom 0 = true) :
    ∃ part, p.write form out = (out.add part, .full) := by
  cases p with
  | text s =>
    obtain rfl := Option.some.inj hcs
    exact writeText_of_not_hasRoom hroom hzero
  | raw formatter bytes format =>
    cases formatter with
    | none =>
      obtain rfl := Option.some.inj hcs
      exact writeText_of_not_hasRoom hroom hzero
    | some formatter =>
      rcases hp with hfaithful | hbreaks
      · obtain ⟨printed, hprinted⟩ :=
          Script.printed_of_succeeds (Script.succeeds_of_faithful hfaithful)
        rw [shown?, hprinted, Option.getD_some] at hcs
        obtain rfl := Option.some.inj hcs
        have hrun := Script.run_faithful_of_not_hasRoom hfaithful hprinted hroom hzero
        obtain ⟨part, hpart⟩ := (formatter bytes format).run_appends form out
        rw [write]
        generalize (formatter bytes format).run form out = ended at hrun hpart
        obtain ⟨after, ending⟩ := ended
        obtain rfl : ending = .incomplete := hrun
        obtain rfl : after = out.add part := hpart
        exact ⟨part, rfl⟩
      · rw [shown?, Script.printed_of_breaksOff hbreaks, Option.getD_none] at hcs
        obtain rfl := Option.some.inj hcs
        rw [write_of_aborted (Script.run_of_breaksOff hbreaks form out)]
        exact writeText_of_not_hasRoom hroom hzero
  | unreadable => cases hcs

theorem writes_write {p : Presentation} (hp : p.Sound) (form : Form) :
    Output.Writes (fun out : Output e =>
        ((p.write form out).1, decide ((p.write form out).2 ≠ .full)))
      (form.image (p.shown?.getD [])) := by
  cases hshown : p.shown? with
  | none =>
    have hnone := fun out : Output e => write_of_shown?_none hshown form out
    simp only [hnone, Option.getD_none, Form.image_nil]
    exact Output.writes_nil
  | some cs =>
    rw [Option.getD_some]
    constructor
    case appends => exact p.write_appends form
    case of_hasRoom =>
      intro out hroom
      simp only [write_of_hasRoom hp hshown hroom]
      rfl
    case of_not_hasRoom =>
      intro out hzero hroom
      obtain ⟨part, hwrite⟩ := write_of_not_hasRoom hp hshown hroom hzero
      simp only [hwrite]
      rfl

end Presentation
end Logbook.Render
