import Logbook.Line.Formatter
import Logbook.Proofs.Render.AnyBytes
import Logbook.Proofs.Render.Bounded
import Logbook.Proofs.Render.Fields
set_option autoImplicit false

/-!
# Lines in a buffer of fixed size

A line that fits is the line a buffer without a limit would get. A longer one is cut by the stage
that has no room: it keeps what the stages before it wrote, and the suffix is placed there, so the
line ends in it. The one exception is a record that was cut. Its suffix is placed before the fields
and the error are written, and over the end of the text if there is no room for it; that is a
boundary between two characters and may be up to three bytes short of the end of the buffer. A
record without fields then goes on to its error, and one of at most two bytes still fits, behind the
suffix of a line that is not the whole line.
-/
namespace Logbook

open Record Render Text

/-- The text ends in the suffix, or is as much of it as fits if all of it does not. -/
def EndsIn (limit : Nat) (suffix : String) (cs : List Char) : Prop :=
  if utf8.measure suffix ≤ limit then suffix.toList <:+ cs
  else IsLongestWithin (fun cs => (utf8.encodeChars cs).length) limit cs suffix.toList

theorem endsIn_marked (limit : Nat) (base : List Char) (suffix : String) :
    EndsIn limit suffix (utf8.marked limit base suffix) := by
  rw [EndsIn, Encoding.marked]
  by_cases hover : utf8.measure suffix ≤ limit
  · rw [if_pos hover, if_pos hover]
    split <;> exact List.suffix_append _ _
  · rw [if_neg hover, if_neg (by omega), if_neg hover]
    exact utf8.fit_isLongest limit suffix.toList

namespace Record

def exceptionText (r : Record) : List Char :=
  match r.exception with
  | none => []
  | some error => '\n' :: error.toList

/-- A block is longer than the space a cut can leave. -/
theorem length_fieldsText {r : Record} {fields : FieldList}
    (h : fields.offsets.isEmpty = false) (registry : Registry) (settings : Settings) :
    4 ≤ (utf8.encodeChars (r.fieldsText registry settings fields)).length := by
  have hle := Utf8.length_le_encodeChars (r.fieldsText registry settings fields)
  rw [fieldsText, if_neg (by simp [h])] at hle ⊢
  have hopen : "\x7b ".toList.length = 2 := rfl
  have hclose : " \x7d".toList.length = 2 := rfl
  have hblock : 4 ≤ (blockText (r.context registry settings) settings.separator
      (fields.offsets.toList.filterMap (fieldAt? r.strings r.encoded))).length := by
    simp only [blockText, List.length_append]
    omega
  exact Nat.le_trans hblock hle

end Record

namespace Line.Formatter

variable (f : Formatter) (registry : Registry) (r : Record)

def headed : List Char :=
  (f.heading.text r).toList ++ r.shownText registry f.settings false

def noted : FieldList :=
  (r.render registry f.settings false f.fields (Output.unlimited utf8)).fields

/-- The heading, the text with the mark of a record that was cut, the fields and the error. -/
def lineText : List Char :=
  f.headed registry r ++ (if r.truncated then f.settings.truncatedSuffix.toList else []) ++
    (r.fieldsText registry f.settings (f.noted registry r) ++ r.exceptionText)

def begun : List Char :=
  if r.truncated then utf8.marked f.capacity (f.headed registry r) f.settings.truncatedSuffix
  else f.headed registry r

/-- The suffix of a record that was cut goes over the end of the line, there are no fields, and the
error fits behind the suffix. -/
structure Overhangs (error : String) : Prop where
  truncated : r.truncated = true
  fields_isEmpty : (f.noted registry r).offsets.isEmpty = true
  exception_eq : r.exception = some error
  headed_fits : (utf8.encodeChars (f.headed registry r)).length ≤ f.capacity
  mark_misfits : f.capacity < (utf8.encodeChars (f.headed registry r)).length +
    utf8.measure f.settings.truncatedSuffix
  error_fits : (utf8.encodeChars (utf8.marked f.capacity (f.headed registry r)
    f.settings.truncatedSuffix ++ '\n' :: error.toList)).length ≤ f.capacity

variable {f registry r} {out : Output utf8} {fields : FieldList} {suffix : String}

theorem writeException_of_hasRoom
    (h : out.hasRoom (utf8.encodeChars r.exceptionText).length = true) :
    writeException suffix r out = out.add r.exceptionText := by
  rw [writeException]
  rw [exceptionText] at h ⊢
  cases hexception : r.exception with
  | none => exact out.add_nil.symm
  | some error =>
    simp only [hexception] at h ⊢
    have hwrite : out.write ("\n" ++ error) = (out.add ('\n' :: error.toList), true) := by
      have htext : ("\n" ++ error).toList = '\n' :: error.toList := String.toList_append
      rw [← htext] at h ⊢
      exact Output.write_of_hasRoom h
    rw [hwrite]

theorem writeException_of_not_hasRoom (hzero : out.hasRoom 0 = true)
    (h : out.hasRoom (utf8.encodeChars r.exceptionText).length = false) :
    writeException suffix r out = out.markCut suffix := by
  rw [writeException]
  rw [exceptionText] at h
  cases hexception : r.exception with
  | none =>
    simp only [hexception, Encoding.encodeChars_nil, List.length_nil, hzero] at h
    cases h
  | some error =>
    simp only [hexception] at h ⊢
    have hwrite : out.write ("\n" ++ error) = (out, false) := by
      have htext : ("\n" ++ error).toList = '\n' :: error.toList := String.toList_append
      rw [← htext] at h
      exact Output.write_of_not_hasRoom h
    rw [hwrite]
    have hback := out.rewind_add []
    rw [out.add_nil] at hback
    simp only [hback]

section Stages

variable (hregistry : registry.All Script.Sound)
include hregistry

theorem writeRest_of_hasRoom
    (h : out.hasRoom (utf8.encodeChars
      (r.fieldsText registry f.settings fields ++ r.exceptionText)).length = true) :
    f.writeRest registry r fields out =
      out.add (r.fieldsText registry f.settings fields ++ r.exceptionText) := by
  rw [Encoding.encodeChars_append, List.length_append] at h
  have hfields := Output.hasRoom_of_le (Nat.le_add_right _ _) h
  rw [← Output.hasRoom_add] at h
  rw [writeRest, renderFields_of_hasRoom hregistry hfields]
  simp only [writeException_of_hasRoom h, Output.add_add]

theorem writeRest_of_not_hasRoom (hzero : out.hasRoom 0 = true)
    (h : out.hasRoom (utf8.encodeChars
      (r.fieldsText registry f.settings fields ++ r.exceptionText)).length = false) :
    ∃ head, f.writeRest registry r fields out =
      (out.add head).markCut f.settings.truncatedSuffix := by
  rw [Encoding.encodeChars_append, List.length_append, ← Output.hasRoom_add] at h
  rw [writeRest]
  cases hfields : out.hasRoom
      (utf8.encodeChars (r.fieldsText registry f.settings fields)).length with
  | true =>
    have hzero' : (out.add (r.fieldsText registry f.settings fields)).hasRoom 0 = true := by
      rw [Output.hasRoom_add]
      exact hfields
    refine ⟨r.fieldsText registry f.settings fields, ?_⟩
    rw [renderFields_of_hasRoom hregistry hfields]
    exact writeException_of_not_hasRoom hzero' h
  | false =>
    refine ⟨[], ?_⟩
    rw [renderFields_of_not_hasRoom hregistry hzero hfields, out.add_nil]

theorem writeTo_of_hasRoom
    (h : out.hasRoom (utf8.encodeChars (f.headed registry r)).length = true) :
    (f.writeTo registry r out).1 = f.writeRest registry r (f.noted registry r)
      (if r.truncated then (out.add (f.headed registry r)).markCut f.settings.truncatedSuffix
        else out.add (f.headed registry r)) := by
  obtain ⟨noted, hrender⟩ := render_any (e := utf8) hregistry r f.settings false f.fields
  have hnoted : f.noted registry r = noted := by
    have hpass := (hrender (Output.unlimited utf8)).1 (Output.hasRoom_unlimited rfl _)
    rw [Formatter.noted, hpass]
  rw [headed, Encoding.encodeChars_append, List.length_append] at h
  have hheading := Output.hasRoom_of_le (Nat.le_add_right _ _) h
  rw [← Output.hasRoom_add] at h
  rw [writeTo, Output.write_of_hasRoom hheading]
  simp only [(hrender _).1 h, ↓reduceIte, hnoted, headed, Output.add_add]

theorem writeTo_whole
    (h : out.hasRoom (utf8.encodeChars (f.lineText registry r)).length = true) :
    (f.writeTo registry r out).1 = out.add (f.lineText registry r) := by
  rw [lineText, Encoding.encodeChars_append, List.length_append] at h
  have hmarked := Output.hasRoom_of_le (Nat.le_add_right _ _) h
  rw [← Output.hasRoom_add] at h
  rw [Encoding.encodeChars_append, List.length_append] at hmarked
  have hheaded := Output.hasRoom_of_le (Nat.le_add_right _ _) hmarked
  rw [← Output.hasRoom_add] at hmarked
  rw [writeTo_of_hasRoom hregistry hheaded, lineText, ← out.add_add,
    ← writeRest_of_hasRoom hregistry h, ← out.add_add]
  cases ht : r.truncated with
  | true =>
    simp only [ht, ↓reduceIte] at hmarked ⊢
    rw [Output.markCut_of_hasRoom hmarked]
  | false => simp only [Bool.false_eq_true, ↓reduceIte, Output.add_nil]

theorem writeTo_of_not_hasRoom
    (h : f.capacity < (utf8.encodeChars (f.headed registry r)).length) :
    ∃ head, (f.writeTo registry r (Output.bounded utf8 f.capacity)).1 =
      ((Output.bounded utf8 f.capacity).add head).markCut f.settings.truncatedSuffix := by
  have hshows := Output.Shows.bounded (e := utf8) f.capacity
  rw [writeTo]
  cases hheading : (Output.bounded utf8 f.capacity).hasRoom
      (utf8.encodeChars (f.heading.text r).toList).length with
  | false =>
    refine ⟨[], ?_⟩
    rw [Output.write_of_not_hasRoom hheading, Output.add_nil]
    rfl
  | true =>
    obtain ⟨noted, hrender⟩ := render_any (e := utf8) hregistry r f.settings false f.fields
    have hzero : ((Output.bounded utf8 f.capacity).add (f.heading.text r).toList).hasRoom 0 =
        true := by
      rw [Output.hasRoom_add]
      exact hheading
    have hfull : ((Output.bounded utf8 f.capacity).add (f.heading.text r).toList).hasRoom
        (utf8.encodeChars (r.shownText registry f.settings false)).length = false := by
      rw [headed, Encoding.encodeChars_append, List.length_append] at h
      rw [Output.hasRoom_add, hshows.hasRoom_eq]
      exact decide_eq_false (by simpa using h)
    obtain ⟨head, noted', -, hcut⟩ := (hrender _).2 hzero hfull
    refine ⟨(f.heading.text r).toList ++ head, ?_⟩
    rw [Output.write_of_hasRoom hheading]
    simp only [hcut, Bool.false_eq_true, ↓reduceIte, Output.add_add]

theorem shows_begun (h : (utf8.encodeChars (f.headed registry r)).length ≤ f.capacity) :
    ∃ out, out.Shows f.capacity (f.begun registry r) ∧
      (f.write registry r).1 = f.writeRest registry r (f.noted registry r) out := by
  have hstart := Output.Shows.bounded (e := utf8) f.capacity
  have hadd : ((Output.bounded utf8 f.capacity).add (f.headed registry r)).Shows f.capacity
    (f.headed registry r) := hstart.add _
  have hroom : (Output.bounded utf8 f.capacity).hasRoom
      (utf8.encodeChars (f.headed registry r)).length = true := by
    rw [hstart.hasRoom_eq]
    simpa using h
  refine ⟨_, ?_, writeTo_of_hasRoom hregistry hroom⟩
  rw [begun]
  split
  · exact hadd.markCut utf8_lawful _
  · exact hadd

omit hregistry in
theorem length_begun_le (h : (utf8.encodeChars (f.headed registry r)).length ≤ f.capacity) :
    (utf8.encodeChars (f.begun registry r)).length ≤ f.capacity := by
  rw [begun]
  split
  · exact length_marked_le utf8 f.capacity _ _
  · exact h

omit hregistry in
/-- What comes after the text fits in front of the end of the buffer, but the whole line does not:
then the mark of a record that was cut took more of the text than it needed. -/
theorem mark_misfits_of_rest_fits
    (h : f.capacity < (utf8.encodeChars (f.lineText registry r)).length)
    (hrest : (utf8.encodeChars (f.begun registry r ++
      (r.fieldsText registry f.settings (f.noted registry r) ++ r.exceptionText))).length ≤
        f.capacity) :
    r.truncated = true ∧ f.capacity < (utf8.encodeChars (f.headed registry r)).length +
      utf8.measure f.settings.truncatedSuffix := by
  rw [lineText] at h
  rw [begun] at hrest
  cases ht : r.truncated with
  | false =>
    simp only [ht, Bool.false_eq_true, ↓reduceIte, List.append_nil] at h hrest
    omega
  | true =>
    refine ⟨rfl, Nat.lt_of_not_le fun hfits => ?_⟩
    simp only [ht, ↓reduceIte] at h hrest
    rw [Encoding.marked, if_pos hfits] at hrest
    omega

theorem shows_write_of_overhangs {error : String} (h : f.Overhangs registry r error) :
    (f.write registry r).1.Shows f.capacity
      (utf8.marked f.capacity (f.headed registry r) f.settings.truncatedSuffix ++
        '\n' :: error.toList) := by
  obtain ⟨out, hshows, hwrite⟩ := shows_begun hregistry h.headed_fits
  have hrest : r.fieldsText registry f.settings (f.noted registry r) ++ r.exceptionText =
      '\n' :: error.toList := by
    rw [fieldsText, if_pos h.fields_isEmpty, exceptionText, h.exception_eq]
    rfl
  have hfits := h.error_fits
  rw [begun, if_pos h.truncated] at hshows
  rw [Encoding.encodeChars_append, List.length_append] at hfits
  have hroom : out.hasRoom (utf8.encodeChars
      (r.fieldsText registry f.settings (f.noted registry r) ++ r.exceptionText)).length = true := by
    rw [hrest, hshows.hasRoom_eq]
    exact decide_eq_true hfits
  rw [hwrite, writeRest_of_hasRoom hregistry hroom, hrest]
  exact hshows.add _

theorem shows_write_of_lt (h : f.capacity < (utf8.encodeChars (f.lineText registry r)).length) :
    (∃ error, f.Overhangs registry r error) ∨
    ∃ base, (f.write registry r).1.Shows f.capacity
      (utf8.marked f.capacity base f.settings.truncatedSuffix) := by
  by_cases hheaded : (utf8.encodeChars (f.headed registry r)).length ≤ f.capacity
  case neg =>
    obtain ⟨head, hwrite⟩ := writeTo_of_not_hasRoom hregistry (Nat.lt_of_not_le hheaded)
    refine .inr ⟨head, ?_⟩
    rw [write, hwrite]
    exact ((Output.Shows.bounded f.capacity).add head).markCut utf8_lawful _
  obtain ⟨out, hshows, hwrite⟩ := shows_begun hregistry hheaded
  cases hrest : out.hasRoom (utf8.encodeChars
    (r.fieldsText registry f.settings (f.noted registry r) ++ r.exceptionText)).length with
  | false =>
    have hzero : out.hasRoom 0 = true := by
      rw [hshows.hasRoom_eq]
      exact decide_eq_true (length_begun_le hheaded)
    obtain ⟨head, hcut⟩ := writeRest_of_not_hasRoom hregistry hzero hrest
    refine .inr ⟨f.begun registry r ++ head, ?_⟩
    rw [hwrite, hcut]
    exact (hshows.add head).markCut utf8_lawful _
  | true =>
    have hend := hwrite.trans (writeRest_of_hasRoom hregistry hrest)
    rw [hshows.hasRoom_eq, decide_eq_true_eq, ← List.length_append,
      ← Encoding.encodeChars_append] at hrest
    obtain ⟨ht, hmisfits⟩ := mark_misfits_of_rest_fits h hrest
    rw [begun, if_pos ht] at hrest hshows
    -- fewer than four bytes are left, which is less than any block takes
    have hshort := Encoding.lt_length_marked Utf8.length_encode_le hmisfits
    cases hempty : (f.noted registry r).offsets.isEmpty with
    | false =>
      have hlong := length_fieldsText (r := r) hempty registry f.settings
      simp only [Encoding.encodeChars_append, List.length_append] at hrest
      omega
    | true =>
      rw [fieldsText, if_pos hempty, List.nil_append, exceptionText] at hrest hend
      cases hexception : r.exception with
      | none =>
        simp only [hexception, Output.add_nil] at hend
        exact .inr ⟨_, hend ▸ hshows⟩
      | some error =>
        simp only [hexception] at hrest
        exact .inl ⟨error, ht, hempty, hexception, hheaded, hmisfits, hrest⟩

end Stages

/-! ## The line of a formatter -/

theorem text_format (f : Formatter) (registry : Registry) (r : Record) :
    (f.format registry r).1.text = (f.write registry r).1.text := by
  simp only [format]

theorem toList_text_format {cs : List Char} (h : (f.write registry r).1.Shows f.capacity cs) :
    (f.format registry r).1.text.toList = cs := by
  rw [text_format, Output.text_of_units h.units_eq, String.toList_ofList]

theorem toList_text_unlimited (hregistry : registry.All Script.Sound) :
    (f.writeTo registry r (Output.unlimited utf8)).1.text.toList = f.lineText registry r := by
  have hunits : ((Output.unlimited utf8).add (f.lineText registry r)).units.toList =
      utf8.encodeChars (f.lineText registry r) := by
    rw [Output.toList_units_add]
    rfl
  rw [writeTo_whole hregistry (Output.hasRoom_unlimited rfl _), Output.text_of_units hunits,
    String.toList_ofList]

theorem toList_text_of_le (hregistry : registry.All Script.Sound)
    (h : (utf8.encodeChars (f.lineText registry r)).length ≤ f.capacity) :
    (f.format registry r).1.text.toList = f.lineText registry r := by
  have hstart := Output.Shows.bounded (e := utf8) f.capacity
  have hroom : (Output.bounded utf8 f.capacity).hasRoom
      (utf8.encodeChars (f.lineText registry r)).length = true := by
    rw [hstart.hasRoom_eq]
    simpa using h
  have hshows := hstart.add (f.lineText registry r)
  rw [← writeTo_whole hregistry hroom] at hshows
  exact toList_text_format hshows

theorem Overhangs.lt_length {error : String} (h : f.Overhangs registry r error) :
    f.capacity < (utf8.encodeChars (f.lineText registry r)).length := by
  have hmisfits := h.mark_misfits
  rw [Encoding.measure] at hmisfits
  rw [lineText, if_pos h.truncated]
  simp only [Encoding.encodeChars_append, List.length_append]
  omega

theorem Overhangs.measure_le {error : String} (h : f.Overhangs registry r error) :
    utf8.measure error ≤ 2 := by
  have hshort := Encoding.lt_length_marked Utf8.length_encode_le h.mark_misfits
  have hfits := h.error_fits
  have hbreak : (utf8.encode '\n').length = 1 := by decide
  rw [Encoding.encodeChars_append, Encoding.encodeChars_cons, List.length_append,
    List.length_append] at hfits
  rw [Encoding.measure]
  omega

/-- A line takes no more than the buffer. It is the line that a buffer without a limit gets if that
one fits; if not, it ends in the suffix, except where an error of at most two bytes stands behind the
suffix of a record that was cut. -/
theorem format_within (f : Formatter) (registry : Registry)
    (hregistry : registry.All Script.Sound) (r : Record) :
    let suffix := f.settings.truncatedSuffix
    let whole := (f.writeTo registry r (Output.unlimited utf8)).1.text
    let line := (f.format registry r).1.text
    whole.toList = f.lineText registry r ∧
      utf8.measure line ≤ f.capacity ∧
      (utf8.measure whole ≤ f.capacity → line = whole) ∧
      (f.capacity < utf8.measure whole → (∀ error, ¬ f.Overhangs registry r error) →
        EndsIn f.capacity suffix line.toList) ∧
      ∀ error, f.Overhangs registry r error →
        f.capacity < utf8.measure whole ∧ utf8.measure error ≤ 2 ∧
          line.toList =
            utf8.marked f.capacity (f.headed registry r) suffix ++ '\n' :: error.toList := by
  intro suffix whole line
  have hwhole : whole.toList = f.lineText registry r := toList_text_unlimited hregistry
  have hmeasure : utf8.measure whole = (utf8.encodeChars (f.lineText registry r)).length := by
    rw [Encoding.measure, hwhole]
  have hoverhangs : ∀ error, f.Overhangs registry r error → line.toList =
      utf8.marked f.capacity (f.headed registry r) suffix ++ '\n' :: error.toList :=
    fun error h => toList_text_format (shows_write_of_overhangs hregistry h)
  have hfits : utf8.measure whole ≤ f.capacity → line = whole := by
    intro hle
    rw [hmeasure] at hle
    have hline : line.toList = f.lineText registry r := toList_text_of_le hregistry hle
    exact String.toList_injective (hline.trans hwhole.symm)
  have hcut : f.capacity < utf8.measure whole → (∃ error, f.Overhangs registry r error) ∨
      ∃ base, line.toList = utf8.marked f.capacity base suffix := by
    intro hlt
    rw [hmeasure] at hlt
    rcases shows_write_of_lt hregistry hlt with h | ⟨base, hshows⟩
    · exact .inl h
    · exact .inr ⟨base, toList_text_format hshows⟩
  refine ⟨hwhole, ?_, hfits, ?_, ?_⟩
  · rcases Nat.lt_or_ge f.capacity (utf8.measure whole) with hlt | hle
    · rw [Encoding.measure]
      rcases hcut hlt with ⟨error, h⟩ | ⟨base, hbase⟩
      · rw [hoverhangs error h]
        exact h.error_fits
      · rw [hbase]
        exact length_marked_le utf8 f.capacity base suffix
    · rw [hfits hle]
      exact hle
  · intro hlt hnone
    rcases hcut hlt with ⟨error, h⟩ | ⟨base, hbase⟩
    · exact absurd h (hnone error)
    · rw [hbase]
      exact endsIn_marked f.capacity base suffix
  · intro error h
    exact ⟨by rw [hmeasure]; exact h.lt_length, h.measure_le, hoverhangs error h⟩

/-- The text has ten bytes and the buffer eight. -/
theorem format_within_eight_bytes :
    let ops : List Operation := [.reset none .info .epoch "main",
      .add (.value (.text "abcdefghij") none)]
    let r := (create (Segment.zeroed 64) 4 0).run ops
    let f : Formatter := { heading := ⟨[]⟩, settings := { truncatedSuffix := "..." }, capacity := 8 }
    let line := (f.format .empty r).1.text
    Registry.All Script.Sound .empty ∧ utf8.measure line ≤ 8 ∧ EndsIn 8 "..." line.toList := by
  intro ops r f line
  have hregistry : Registry.All Script.Sound .empty := nofun
  obtain ⟨hwhole, hle, -, hends, -⟩ := format_within f .empty hregistry r
  refine ⟨hregistry, hle, hends ?_ fun error h => absurd h.truncated (by decide)⟩
  rw [Encoding.measure, hwhole]
  decide

/-- The suffix alone is too long for the buffer and one of its two characters fits. The two bytes
that are left take the line break and the error, and the line does not end as it should. -/
theorem format_error_after_mark :
    let ops : List Operation := [.reset none .info .epoch "main",
      .add (.value (.bool true) none), .attach "x"]
    let r := (create (Segment.zeroed 1) 0 0).run ops
    let f : Formatter := { heading := ⟨[]⟩, settings := { truncatedSuffix := "€€" }, capacity := 5 }
    let whole := (f.writeTo .empty r (Output.unlimited utf8)).1.text
    let line := (f.format .empty r).1.text
    whole = "€€\nx" ∧ line = "€\nx" ∧ ¬ EndsIn f.capacity f.settings.truncatedSuffix line.toList := by
  intro ops r f whole line
  have hregistry : Registry.All Script.Sound .empty := nofun
  have hwhole : whole = "€€\nx" := by
    apply String.toList_injective
    rw [toList_text_unlimited hregistry]
    decide
  have hoverhangs : f.Overhangs .empty r "x" := by constructor <;> decide
  have hline : line = "€\nx" := by
    apply String.toList_injective
    rw [toList_text_format (shows_write_of_overhangs hregistry hoverhangs)]
    decide
  refine ⟨hwhole, hline, fun h => ?_⟩
  rw [hline, EndsIn, if_neg (by decide)] at h
  exact absurd h.begins (by decide)

end Line.Formatter
end Logbook
