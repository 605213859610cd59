import Logbook.Delivery.Immediate
import Logbook.Delivery.Phase
set_option autoImplicit false

/-!
# Delivery by a worker

Submitted events wait in a queue. A worker takes the first, delivers it and gives its record back
before it takes the next. When the queue is empty it flushes, takes over a published configuration
or rests, as its phase says; when the runner was stopped as well, it looks at the queue once more
and then closes the appenders.

`step` is one step of the worker. Whatever happens between two steps, other threads can do, so a
run of the runner is any sequence of submissions, changes, stops and steps.

A worker that breaks off stops the runner, drops what is queued and closes the appenders. One that
breaks off while it closes them in an orderly way leaves the pool as it is; this is noticed only by
whoever waits for it.
-/
namespace Logbook

inductive Stage where
  | ready
  | delivered (record : Record)
  | idle
  /-- No event was found, and the runner was seen to have stopped. -/
  | stopping
  /-- The worker has ended; `lost` if it broke off while it closed the appenders. -/
  | ended (lost : Bool)

structure Background where
  stock : Stock
  queue : List Record := []
  /-- The last configuration that was published and not taken over. -/
  published : Option Arrangement := none
  accepting : Bool := true
  outlet : Outlet
  phase : Phase := .quiet
  stage : Stage := .ready
  daemon : Bool
  joined : Bool := false
  journal : Journal

namespace Background

def workerThread : String := "segment-logger"

def start (env : Environment) (c : Config) : Started Background :=
  match c.arrange with
  | .error error => .refused error
  | .ok arrangement =>
    let work := (Outlet.create arrangement).start env {}
    match work.aborted with
    | some reason => .aborted work.journal reason
    | none =>
      .running {
        stock := Stock.create c
        outlet := work.outlet
        daemon := c.daemon
        journal := work.journal }

/-- Puts an event into the queue; one that is submitted after the runner stopped is lost. -/
def submit (r : Background) (record : Record) : Background :=
  if r.stock.running then { r with queue := r.queue ++ [record] } else r

/-- Publishes a configuration, in place of one that was not taken over yet. -/
def update (r : Background) (c : Config) : Background × Outcome :=
  match c.arrange with
  | .error error => (r, .refused error)
  | .ok arrangement =>
    if r.accepting then ({ r with published := some arrangement }, .done)
    else (r, .refused .stopped)

def stop (r : Background) : Background :=
  { r with accepting := false, stock := r.stock.stop }

def close (r : Background) (env : Environment) : Background × Option String :=
  let (dropped, stock) := r.stock.takeDropped
  let closed := r.outlet.close env workerThread dropped r.journal
  ({ r with stock, outlet := closed.outlet, journal := closed.journal }, closed.aborted)

def fail (r : Background) (env : Environment) (reason : String) : Background :=
  let r := { r.stop with queue := [], journal := r.journal.add (.workerFailed reason) }
  let (r, aborted) := r.close env
  let journal := if aborted.isSome then r.journal.add .closeFailed else r.journal
  { r with journal, stock := r.stock.dispose, stage := .ended false }

/-- Keeps what work on the outlet left behind, and goes on unless it broke off. -/
def resume (r : Background) (env : Environment) (w : Worked) (next : Background → Background) :
    Background :=
  let r := { r with outlet := w.outlet, journal := w.journal }
  match w.aborted with
  | none => next r
  | some reason => r.fail env reason

def flush (r : Background) (env : Environment) : Background :=
  let (dropped, stock) := r.stock.takeDropped
  { r with stock }.resume env (r.outlet.flush env workerThread dropped r.journal) id

def change (r : Background) (env : Environment) : Background :=
  match r.published with
  | none => r
  | some arrangement =>
    { r with published := none }.resume env (r.outlet.change env arrangement r.journal) fun r =>
      { r with stock.policy := arrangement.policy }

def useTurn (r : Background) (env : Environment) : Background :=
  let (turn, phase) := r.phase.turn r.published.isSome
  let r := { r with phase, stage := .ready }
  match turn with
  | .flush => r.flush env
  | .change => r.change env
  | .rest => r

def finish (r : Background) (env : Environment) : Background :=
  match r.close env with
  | (r, none) => { r with stock := r.stock.dispose, stage := .ended false }
  | (r, some _) => { r with stage := .ended true }

def step (r : Background) (env : Environment) : Background :=
  match r.stage with
  | .ready =>
    match r.queue with
    | [] => { r with stage := .idle }
    | record :: rest =>
      { r with queue := rest }.resume env (r.outlet.deliver env r.journal record) fun r =>
        { r with stage := .delivered record }
  | .delivered record =>
    { r with stock := r.stock.release record, phase := .afterEvent, stage := .ready }
  | .idle =>
    if r.stock.running then r.useTurn env else { r with stage := .stopping }
  | .stopping =>
    if r.queue.isEmpty then r.finish env else { r with stage := .ready }
  | .ended _ => r

def isResting (r : Background) : Bool :=
  match r.stage with
  | .ready | .idle =>
    r.stock.running && r.queue.isEmpty && r.published.isNone && r.phase = .quiet
  | .delivered _ | .stopping => false
  | .ended _ => true

/-- Lets the worker step until it rests or, if an appender keeps the lines that it gets, until it
has delivered an event. -/
def steps (env : Environment) (kept : Bool) : Nat → Background → Background
  | 0, r => r
  | fuel + 1, r =>
    match kept, r.stage with
    | true, .delivered _ => r
    | _, _ => if r.isResting then r else steps env kept fuel (r.step env)

/-- Steps that a worker takes at most before it rests. -/
def stepsToRest (r : Background) : Nat := 2 * r.queue.length + 12

def settle (r : Background) (env : Environment) (kept : Bool := false) : Background :=
  r.steps env kept r.stepsToRest

def join (r : Background) : Background :=
  match r.stage with
  | .ended true =>
    if r.joined then r else { r with joined := true, journal := r.journal.add .workerLost }
  | .ended false => { r with joined := true }
  | _ => r

def shutdown (r : Background) (env : Environment) : Background :=
  (r.stop.settle env).join

/-- Gives the runner up: a daemon is only told to end. -/
def drop (r : Background) (env : Environment) : Background :=
  if r.daemon then r.stop else r.shutdown env

end Background
end Logbook
