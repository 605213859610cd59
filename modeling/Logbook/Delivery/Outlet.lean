import Logbook.Delivery.Stock
import Logbook.Journal
set_option autoImplicit false

/-!
# From records to appenders

An outlet formats records and passes the lines to the appenders of the current configuration. Only
one thread works on it at a time. Dropped events are reported by a line of their own, before the
appenders are flushed.

Whatever breaks off leaves the outlet as far as it had come: an outlet that could not change its
appenders has the new heading and the old appenders. Records are formatted as if none of them held a
decimal that is too long for its format.
-/
namespace Logbook

structure Environment where
  registry : Registry := {}
  appenders : Nat → Behaviour := fun _ _ _ => .ok
  /-- What the clock shows when a notice is written after so many events. -/
  now : Nat → Calendar.Instant := fun _ => .epoch

structure Outlet where
  formatter : Line.Formatter
  handles : List Handle

/-- What work on an outlet leaves behind; `aborted` is the reason if it broke off. -/
structure Worked where
  outlet : Outlet
  journal : Journal
  aborted : Option String := none

namespace Worked

def andThen (w : Worked) (next : Outlet → Journal → Worked) : Worked :=
  match w.aborted with
  | none => next w.outlet w.journal
  | some _ => w

end Worked

namespace Outlet

def noticeSize : Nat := 64

def noticeStrings : Nat := 4

def callAll (call : Call) (handles : List Handle) : List (Handle × Call) :=
  handles.map fun handle => (handle, call)

/-- The calls that pass on a line: one for every handle whose level it reaches. -/
def lineCalls (handles : List Handle) (line : Line) : List (Handle × Call) :=
  callAll (.write line) (handles.filter fun handle => handle.minLevel ≤ line.level)

def perform (o : Outlet) (env : Environment) (j : Journal) (calls : List (Handle × Call)) :
    Worked :=
  let (j, aborted) := j.perform env.appenders calls
  ⟨o, j, aborted⟩

def create (a : Arrangement) : Outlet where
  formatter := { heading := a.heading, settings := a.settings }
  handles := a.handles

def start (o : Outlet) (env : Environment) (j : Journal) : Worked :=
  o.perform env j (callAll .start o.handles)

/-- Formats a record and passes the line on. Without appenders nothing is formatted. -/
def deliver (o : Outlet) (env : Environment) (j : Journal) (record : Record) : Worked :=
  if o.handles = [] then ⟨o, j, none⟩
  else
    let (line, formatter) := o.formatter.format env.registry record
    { o with formatter }.perform env j (lineCalls o.handles line)

def notice (now : Calendar.Instant) (thread : String) (dropped : Nat) : Record :=
  ((((Record.create (Segment.zeroed noticeSize) noticeStrings).reset none .warn now thread).append
    (.text "Log message skipped due to pool exhaustion (")).append
    (.ofInt .uword dropped)).append (.text " dropped)")

def notify (o : Outlet) (env : Environment) (thread : String) (dropped : Nat) (j : Journal) :
    Worked :=
  if dropped = 0 then ⟨o, j, none⟩
  else o.deliver env j (notice (env.now j.events.size) thread dropped)

def flush (o : Outlet) (env : Environment) (thread : String) (dropped : Nat) (j : Journal) :
    Worked :=
  (o.notify env thread dropped j).andThen fun o j =>
    o.perform env j (callAll .flush o.handles)

/-- The calls of a change of appenders: those that leave are flushed and disposed, and those that
come are started. -/
def changeCalls (old new : List Handle) : List (Handle × Call) :=
  (old.filter fun handle => !handle.isAmong new).flatMap
      (fun handle => [(handle, .flush), (handle, .dispose)]) ++
    callAll .start (new.filter fun handle => !handle.isAmong old)

def change (o : Outlet) (env : Environment) (a : Arrangement) (j : Journal) : Worked :=
  let o := { o with formatter.heading := a.heading, formatter.settings := a.settings }
  (o.perform env j (changeCalls o.handles a.handles)).andThen fun o j =>
    ⟨{ o with handles := a.handles }, j, none⟩

def close (o : Outlet) (env : Environment) (thread : String) (dropped : Nat) (j : Journal) :
    Worked :=
  (o.flush env thread dropped j).andThen fun o j =>
    { o with handles := [] }.perform env j (callAll .dispose o.handles)

end Outlet
end Logbook
