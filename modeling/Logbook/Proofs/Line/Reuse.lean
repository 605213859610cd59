import Logbook.Line.Formatter
import Logbook.Proofs.Record.Reuse
import Logbook.Proofs.Render.Partition
set_option autoImplicit false

/-!
# Formatters that are used again

A formatter keeps its list of fields from record to record. Whatever it formatted before, and
whichever reconfigurations failed, a line depends on the heading and the settings that were taken up
last, and on the record. With a record that is used again in the place of a new one it is the same
line.
-/
namespace Logbook

open Calendar Record Render Text

namespace Line.Formatter

inductive Act where
  | format (registry : Registry) (r : Record)
  | reconfigure (pattern : String) (settings : Settings)

/-- What an act takes up: a reconfiguration its heading and settings, unless it fails. -/
def Act.applied? : Act → Option (Heading × Settings)
  | .format .. => none
  | .reconfigure pattern settings =>
    match Heading.parse pattern with
    | .ok heading => some (heading, settings)
    | .error _ => none

def perform (f : Formatter) : Act → Formatter
  | .format registry r => (f.format registry r).2
  | .reconfigure pattern settings =>
    match f.reconfigure pattern settings with
    | .ok f => f
    | .error _ => f

def run (f : Formatter) (acts : List Act) : Formatter := acts.foldl perform f

def lastApplied (f : Formatter) (acts : List Act) : Heading × Settings :=
  (acts.filterMap Act.applied?).getLast?.getD (f.heading, f.settings)

variable {f : Formatter}

theorem perform_of_applied? {act : Act} {heading : Heading} {settings : Settings}
    (h : act.applied? = some (heading, settings)) :
    f.perform act = { f with heading, settings } := by
  cases act with
  | format registry r => cases h
  | reconfigure pattern settings' =>
    rw [Act.applied?] at h
    rw [perform, Formatter.reconfigure]
    generalize Heading.parse pattern = parsed at h
    cases parsed with
    | ok heading' =>
      cases h
      rfl
    | error name => cases h

theorem perform_of_not_applied {act : Act} (h : act.applied? = none) :
    ∃ fields, f.perform act = { f with fields } := by
  cases act with
  | format registry r => exact ⟨_, rfl⟩
  | reconfigure pattern settings =>
    rw [Act.applied?] at h
    rw [perform, Formatter.reconfigure]
    generalize Heading.parse pattern = parsed at h
    cases parsed with
    | ok heading => cases h
    | error name => exact ⟨f.fields, rfl⟩

theorem recycled_write (h : f.fields.Recycled) (registry : Registry) (r : Record) :
    (f.write registry r).2.Recycled := by
  rw [write, writeTo]
  generalize (Output.bounded utf8 f.capacity).write (f.heading.text r) = written
  obtain ⟨out, fitted⟩ := written
  cases fitted with
  | false => exact h
  | true => exact FieldList.Recycled.pass r registry f.settings false out h

theorem recycled_perform (h : f.fields.Recycled) (act : Act) :
    (f.perform act).fields.Recycled := by
  cases act with
  | format registry r => exact recycled_write h registry r
  | reconfigure pattern settings =>
    rw [perform, Formatter.reconfigure]
    cases Heading.parse pattern with
    | ok heading => exact h
    | error name => exact h

theorem lastApplied_cons (act : Act) (acts : List Act) :
    f.lastApplied (act :: acts) = (f.perform act).lastApplied acts := by
  cases happlied : act.applied? with
  | none =>
    obtain ⟨fields, hperform⟩ := perform_of_not_applied (f := f) happlied
    rw [hperform, lastApplied, lastApplied, List.filterMap_cons_none happlied]
  | some applied =>
    obtain ⟨heading, settings⟩ := applied
    rw [perform_of_applied? happlied, lastApplied, lastApplied,
      List.filterMap_cons_some happlied, List.getLast?_cons]
    rfl

/-- A formatter that was used is one with the heading and the settings taken up last, and with a
list that was used. -/
theorem run_eq (h : f.fields.Recycled) (acts : List Act) :
    ∃ fields, fields.Recycled ∧ f.run acts =
      { heading := (f.lastApplied acts).1, settings := (f.lastApplied acts).2,
        capacity := f.capacity, fields } := by
  -- the induction goes from the first act on; `lastApplied_cons` carries what that act took up
  induction acts generalizing f with
  | nil => exact ⟨f.fields, h, rfl⟩
  | cons act acts ih =>
    obtain ⟨fields, hfields, hrun⟩ := ih (recycled_perform h act)
    have hcapacity : (f.perform act).capacity = f.capacity := by
      cases happlied : act.applied? with
      | none =>
        obtain ⟨fields, hperform⟩ := perform_of_not_applied (f := f) happlied
        rw [hperform]
      | some applied => rw [perform_of_applied? happlied]
    rw [← lastApplied_cons, hcapacity] at hrun
    exact ⟨fields, hfields, hrun⟩

theorem write_recycled (h : f.fields.Recycled) (registry : Registry) (r : Record) :
    (f.write registry r).1 = (({ f with fields := {} } : Formatter).write registry r).1 := by
  rw [write, write, writeTo, writeTo]
  generalize (Output.bounded utf8 f.capacity).write (f.heading.text r) = written
  obtain ⟨out, fitted⟩ := written
  cases fitted with
  | false => rfl
  | true => simp only [r.render_recycled registry f.settings false h out, writeRest]

theorem format_eq_of_alike {r s : Record} (h : r.Alike s) (f : Formatter) (registry : Registry) :
    (f.format registry r).1 = (f.format registry s).1 := by
  have htoken : Token.text r = Token.text s := by
    funext token
    cases token with
    | literal text => rfl
    | date => rw [Token.text, Token.text, h.timestamp_eq]
    | time => rw [Token.text, Token.text, h.timestamp_eq]
    | level => rw [Token.text, Token.text, h.level_eq]
    | logger => rw [Token.text, Token.text, h.loggerName_eq]
    | thread => rw [Token.text, Token.text, h.thread_eq]
  have hheading : f.heading.text r = f.heading.text s := by
    rw [Heading.text, Heading.text, htoken]
  have hwrite : f.write registry r = f.write registry s := by
    rw [write, write, writeTo, writeTo, hheading]
    simp only [h.render_eq, writeRest, h.renderFields_eq, writeException, h.exception_eq]
  rw [format, format, hwrite, h.level_eq, h.timestamp_eq, h.loggerName_eq, h.thread_eq]

theorem format_run (heading : Heading) (settings : Settings) (capacity : Nat) (acts : List Act)
    (registry : Registry) (r : Record) :
    let new : Formatter := { heading, settings, capacity }
    let applied := new.lastApplied acts
    ((new.run acts).format registry r).1 =
      (({ heading := applied.1, settings := applied.2, capacity } : Formatter).format registry r).1 := by
  intro new applied
  obtain ⟨fields, hfields, hrun⟩ := run_eq (f := new) .new acts
  have hwrite := write_recycled (f := ⟨applied.1, applied.2, capacity, fields⟩) hfields registry r
  rw [hrun]
  simp only [format]
  rw [hwrite]

end Line.Formatter

open Line

/-- Nothing of earlier events is left over in a record that was reset, whatever bytes its segment
holds and whether unmanaged values are written in place or not, nor in a formatter: records and
lines are those of a new record and a new formatter. -/
theorem reuse_leaves_nothing (size capacity : Nat) (written written' : Array UInt8)
    (serial serial' : Nat) (ops ops' : List Operation) (loggerName : Option Label) (level : Level)
    (now : Instant) (thread : String) (more : List Operation) :
    let again := fun r : Record => (r.reset loggerName level now thread).run more
    let first := again ((create ⟨size, written⟩ capacity serial).run ops)
    let second := again ((create ⟨size, written'⟩ capacity serial').run ops')
    let fresh := again (create (Segment.zeroed size) capacity)
    let inPlace := (((create ⟨size, written⟩ capacity serial).runInPlace ops).reset loggerName level
      now thread).runInPlace more
    first.Indistinct second ∧ first.Indistinct fresh ∧ inPlace.Indistinct fresh ∧
      ∀ (heading : Heading) (settings : Settings) (lineCapacity : Nat)
        (acts : List Line.Formatter.Act) (registry : Registry),
        let start : Line.Formatter := { heading, settings, capacity := lineCapacity }
        let applied := start.lastApplied acts
        let new : Line.Formatter :=
          { heading := applied.1, settings := applied.2, capacity := lineCapacity }
        (∀ r, ((start.run acts).format registry r).1 = (new.format registry r).1) ∧
          ((start.run acts).format registry first).1 = (new.format registry fresh).1 := by
  intro again first second fresh inPlace
  have hholds := Holds.create ⟨size, written⟩ capacity serial
  have hholds' := Holds.create ⟨size, written'⟩ capacity serial'
  have hfresh := Holds.create (Segment.zeroed size) capacity 0
  obtain ⟨hsize, hcapacity⟩ := hholds.run_room ops
  obtain ⟨hsize', hcapacity'⟩ := hholds'.run_room ops'
  have hraw := (Alike.refl (create ⟨size, written⟩ capacity serial)).runInPlace hholds ops
  have hfirst : first.Alike fresh :=
    alike_reset_run loggerName level now thread more hsize hcapacity hfresh
  have hsecond : second.Alike fresh :=
    alike_reset_run loggerName level now thread more hsize' hcapacity' hfresh
  have hinPlace : inPlace.Alike fresh :=
    alike_reset_runInPlace loggerName level now thread more (hraw.size_eq.trans hsize)
      (hraw.capacity_eq.trans hcapacity) hfresh
  refine ⟨(hfirst.trans hsecond.symm).indistinct, hfirst.indistinct, hinPlace.indistinct, ?_⟩
  intro heading settings lineCapacity acts registry start applied new
  have hline := Line.Formatter.format_run heading settings lineCapacity acts registry
  exact ⟨hline, (hline first).trans (Line.Formatter.format_eq_of_alike hfirst new registry)⟩

end Logbook
