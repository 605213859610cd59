import Logbook.Appender.Basic
set_option autoImplicit false

/-!
# Appenders that write to a sink of bytes

Lines go through a buffer. A text that fits into the spare room is kept there, one that exceeds it
empties the buffer first, and one as large as the whole buffer goes to the sink directly. What the
sink refuses stays in the buffer. A line is written as its text and then its end, two writes of
which the second may fail alone.
-/
namespace Logbook

structure Faults where
  write : Option String := none
  flush : Option String := none

/-- A destination of bytes, which may refuse them. A refused write leaves nothing behind. -/
structure Sink where
  text : String := ""
  writeError : Option String := none
  flushError : Option String := none
  /-- What is refused after each of the next calls; when the list ends that stays as it is. -/
  changes : List Faults := []

namespace Sink

def answered (s : Sink) : Sink :=
  match s.changes with
  | [] => s
  | faults :: rest =>
    { s with writeError := faults.write, flushError := faults.flush, changes := rest }

def write (s : Sink) (text : String) : Sink × Option String :=
  match s.writeError with
  | none => ({ s.answered with text := s.text ++ text }, none)
  | some error => (s.answered, some error)

def flush (s : Sink) : Sink × Option String := (s.answered, s.flushError)

@[simp] theorem text_answered (s : Sink) : s.answered.text = s.text := by
  rw [answered]
  split <;> rfl

end Sink

structure LineWriter where
  sink : Sink
  buffer : String := ""

namespace LineWriter

def capacity : Nat := 8192

def drain (w : LineWriter) : LineWriter × Option String :=
  if w.buffer = "" then (w, none)
  else
    match w.sink.write w.buffer with
    | (sink, none) => (⟨sink, ""⟩, none)
    | (sink, some error) => ({ w with sink }, some error)

def keep (w : LineWriter) (text : String) : LineWriter :=
  { w with buffer := w.buffer ++ text }

/-- Keeps a text or, if it is as large as the buffer, hands it to the sink. -/
def keepOrPass (w : LineWriter) (text : String) : LineWriter × Option String :=
  if text.utf8ByteSize < capacity then (w.keep text, none)
  else
    let (sink, error) := w.sink.write text
    ({ w with sink }, error)

def put (w : LineWriter) (text : String) : LineWriter × Option String :=
  if w.buffer.utf8ByteSize + text.utf8ByteSize ≤ capacity then w.keepOrPass text
  else
    match w.drain with
    | (w, none) => w.keepOrPass text
    | (w, some error) => (w, some error)

def writeLine (w : LineWriter) (text : String) : LineWriter × Option String :=
  match w.put text with
  | (w, none) => w.put "\n"
  | (w, some error) => (w, some error)

def flush (w : LineWriter) : LineWriter × Option String :=
  match w.drain with
  | (w, none) =>
    let (sink, error) := w.sink.flush
    ({ w with sink }, error)
  | (w, some error) => (w, some error)

/-- What a call does; disposing is flushing. -/
def receive (w : LineWriter) : Call → LineWriter × Option String
  | .start => (w, none)
  | .write line => w.writeLine line.text
  | .flush | .dispose => w.flush

def afterCalls (w : LineWriter) (calls : List Call) : LineWriter :=
  calls.foldl (fun w call => (w.receive call).1) w

def behaviour (w : LineWriter) : Behaviour := fun earlier call =>
  .ofError? ((w.afterCalls earlier).receive call).2

end LineWriter
end Logbook
