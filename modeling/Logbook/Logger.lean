import Logbook.Delivery.Runner
set_option autoImplicit false

/-!
# Loggers

Producers log through a logger. It passes over events below its level, asks the runner for a record,
and does what the policy says when there is none. `Fate` says what became of an event: each has
exactly one.
-/
namespace Logbook

inductive Part where
  | value (v : Record.Value) (format : Option String)
  | field (key : String) (v : Record.Value)
  | exception (text : String)

def Record.add (r : Record) : Part → Record
  | .value v format => r.append v format
  | .field key v => r.appendField key v
  | .exception text => r.attach text

structure Logger where
  label : Label
  level : Level

inductive Acquisition where
  | granted (record : Record)
  | filtered
  | dropped
  | counted
  | waiting

inductive Fate where
  | submitted
  | filtered
  | dropped
  | counted
  | waiting
  deriving DecidableEq

structure Logged where
  runner : Runner
  fate : Fate
  aborted : Option String := none

namespace Logger

def isEnabled (l : Logger) (level : Level) : Bool := decide (l.level ≤ level)

def onExhausted (stock : Stock) : Acquisition × Stock :=
  match stock.policy with
  | .drop => (.dropped, stock)
  | .dropAndNotify => (.counted, stock.noteDropped)
  | .allocate =>
    let (record, stock) := stock.allocate
    (.granted record, stock)
  | .wait => (.waiting, stock)

def acquire (l : Logger) (level : Level) (now : Calendar.Instant) (thread : String)
    (stock : Stock) : Acquisition × Stock :=
  if l.isEnabled level then
    match stock.tryAcquire with
    | some (record, stock) => (.granted (record.reset (some l.label) level now thread), stock)
    | none =>
      match onExhausted stock with
      | (.granted record, stock) =>
        (.granted (record.reset (some l.label) level now thread), stock)
      | other => other
  else (.filtered, stock)

def log (l : Logger) (env : Environment) (now : Calendar.Instant) (thread : String) (level : Level)
    (parts : List Part) (runner : Runner) : Logged :=
  let (acquisition, stock) := l.acquire level now thread runner.stock
  let runner := runner.withStock stock
  match acquisition with
  | .granted record =>
    let (runner, aborted) := runner.submit env thread (parts.foldl Record.add record)
    ⟨runner, .submitted, aborted⟩
  | .filtered => ⟨runner, .filtered, none⟩
  | .dropped => ⟨runner, .dropped, none⟩
  | .counted => ⟨runner, .counted, none⟩
  | .waiting => ⟨runner, .waiting, none⟩

end Logger
end Logbook
