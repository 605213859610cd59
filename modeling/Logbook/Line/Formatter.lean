import Logbook.Line.Heading
import Logbook.Render.Fields
set_option autoImplicit false

/-!
# Lines

A line is the heading, the text of a record, its fields and, on a line of its own, the text of an
attached error. It is written into a buffer of fixed size; a part that does not fit is taken back,
the suffix marks the cut and the parts after it are left out.
-/
namespace Logbook

open Render

structure Line where
  text : String
  level : Level
  timestamp : Calendar.Instant
  loggerName : Option String
  thread : Option String
  deriving DecidableEq

namespace Line

def defaultCapacity : Nat := 4096

structure Formatter where
  heading : Heading
  settings : Settings
  capacity : Nat := defaultCapacity
  fields : FieldList := {}

namespace Formatter

def writeException (suffix : String) (r : Record) (out : Output Text.utf8) : Output Text.utf8 :=
  match r.exception with
  | none => out
  | some text =>
    match out.write ("\n" ++ text) with
    | (out, true) => out
    | (after, false) => (after.rewind out.length).markCut suffix

def writeRest (f : Formatter) (registry : Registry) (r : Record) (fields : FieldList)
    (out : Output Text.utf8) : Output Text.utf8 :=
  match r.renderFields registry f.settings fields out with
  | (out, false) => out
  | (out, true) => writeException f.settings.truncatedSuffix r out

def writeTo (f : Formatter) (registry : Registry) (r : Record) (out : Output Text.utf8) :
    Output Text.utf8 × FieldList :=
  match out.write (f.heading.text r) with
  | (out, false) => ((out.rewind 0).markCut f.settings.truncatedSuffix, f.fields)
  | (out, true) =>
    let pass := r.render registry f.settings false f.fields out
    (if pass.fitted then f.writeRest registry r pass.fields pass.out else pass.out, pass.fields)

def write (f : Formatter) (registry : Registry) (r : Record) : Output Text.utf8 × FieldList :=
  f.writeTo registry r (Output.bounded Text.utf8 f.capacity)

def format (f : Formatter) (registry : Registry) (r : Record) : Line × Formatter :=
  let (out, fields) := f.write registry r
  (⟨out.text, r.level, r.timestamp, r.loggerName.map Label.text, r.thread⟩, { f with fields })

/-- The line of a record and the formatter for the next one, unless the pass over the text breaks
off. -/
def tryFormat (f : Formatter) (registry : Registry) (r : Record) : Option (Line × Formatter) :=
  match (Output.bounded Text.utf8 f.capacity).write (f.heading.text r) with
  | (_, false) => some (f.format registry r)
  | (out, true) =>
    (r.tryRender registry f.settings false f.fields out).map fun _ => f.format registry r

/-- Takes up a new pattern and new settings, or neither if the pattern has an unknown name. -/
def reconfigure (f : Formatter) (pattern : String) (settings : Settings) :
    Except String Formatter :=
  (Heading.parse pattern).map fun heading => { f with heading, settings }

end Formatter
end Line
end Logbook
