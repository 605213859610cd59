import Logbook.Appender.Basic
set_option autoImplicit false

/-!
# Appenders that keep lines in memory

Such an appender answers every call well and remembers the texts of its lines, how often it was
flushed, and whether it was started and disposed. Disposing it does not flush it.
-/
namespace Logbook

structure MemoryLog where
  lines : Array String := #[]
  started : Bool := false
  flushes : Nat := 0
  disposed : Bool := false
  deriving DecidableEq

namespace MemoryLog

def receive (m : MemoryLog) : Call → MemoryLog
  | .start => { m with started := true }
  | .write line => { m with lines := m.lines.push line.text }
  | .flush => { m with flushes := m.flushes + 1 }
  | .dispose => { m with disposed := true }

def ofCalls (calls : List Call) : MemoryLog := calls.foldl receive {}

def behaviour : Behaviour := fun _ _ => .ok

end MemoryLog
end Logbook
