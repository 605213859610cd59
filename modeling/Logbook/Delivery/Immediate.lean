import Logbook.Delivery.Outlet
set_option autoImplicit false

/-!
# Delivery by the submitting thread

A submitted event is formatted, written and flushed before `submit` returns, and then its record
goes back to the pool. If an appender breaks off, so does whatever the producer asked for: the
record of a submitted event is lost, and the runner goes on. A runner that breaks off while it is
closed keeps its records.
-/
namespace Logbook

inductive Started (ρ : Type) where
  | running (runner : ρ)
  | refused (error : ConfigError)
  | aborted (journal : Journal) (reason : String)

inductive Outcome where
  | done
  | refused (error : ConfigError)
  | aborted (reason : String)
  deriving DecidableEq

namespace Outcome

def ofAborted? : Option String → Outcome
  | none => .done
  | some reason => .aborted reason

end Outcome

structure Immediate where
  stock : Stock
  /-- There is none after the runner was shut down. -/
  outlet : Option Outlet
  journal : Journal

namespace Immediate

def start (env : Environment) (c : Config) : Started Immediate :=
  match c.arrange with
  | .error error => .refused error
  | .ok arrangement =>
    let work := (Outlet.create arrangement).start env {}
    match work.aborted with
    | some reason => .aborted work.journal reason
    | none => .running ⟨Stock.create c, some work.outlet, work.journal⟩

def submit (r : Immediate) (env : Environment) (thread : String) (record : Record) :
    Immediate × Option String :=
  match r.outlet with
  | none => ({ r with stock := r.stock.release record }, none)
  | some outlet =>
    let delivered := outlet.deliver env r.journal record
    match delivered.aborted with
    | some reason =>
      ({ r with outlet := some delivered.outlet, journal := delivered.journal }, some reason)
    | none =>
      let (dropped, stock) := r.stock.takeDropped
      let flushed := delivered.outlet.flush env thread dropped delivered.journal
      let stock := if flushed.aborted.isSome then stock else stock.release record
      (⟨stock, some flushed.outlet, flushed.journal⟩, flushed.aborted)

def update (r : Immediate) (env : Environment) (c : Config) : Immediate × Outcome :=
  match c.arrange with
  | .error error => (r, .refused error)
  | .ok arrangement =>
    match r.outlet with
    | none => (r, .refused .stopped)
    | some outlet =>
      let changed := outlet.change env arrangement r.journal
      let policy :=
        if changed.aborted.isSome then r.stock.policy else arrangement.policy
      (⟨{ r.stock with policy }, some changed.outlet, changed.journal⟩,
        .ofAborted? changed.aborted)

/-- Closes the appenders and empties the pool. A second call does nothing. -/
def shutdown (r : Immediate) (env : Environment) (thread : String) :
    Immediate × Option String :=
  match r.outlet with
  | none => ({ r with stock := r.stock.stop }, none)
  | some outlet =>
    let (dropped, stock) := r.stock.stop.takeDropped
    let closed := outlet.close env thread dropped r.journal
    let stock := if closed.aborted.isSome then stock else stock.dispose
    (⟨stock, none, closed.journal⟩, closed.aborted)

end Immediate
end Logbook
