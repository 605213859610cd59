import Logbook.Delivery.Background
set_option autoImplicit false

/-!
# Runners

A runner lends records and delivers the events that are submitted with them, by the strategy of its
configuration. Producers see no difference between the strategies but when lines arrive and who is
hit by an appender that breaks off.
-/
namespace Logbook

inductive Runner where
  | immediate (r : Immediate)
  | background (r : Background)

namespace Runner

def start (env : Environment) (c : Config) : Started Runner :=
  match c.strategy with
  | .immediate =>
    match Immediate.start env c with
    | .running r => .running (.immediate r)
    | .refused error => .refused error
    | .aborted journal reason => .aborted journal reason
  | .background =>
    match Background.start env c with
    | .running r => .running (.background r)
    | .refused error => .refused error
    | .aborted journal reason => .aborted journal reason

def stock : Runner → Stock
  | .immediate r => r.stock
  | .background r => r.stock

def withStock (stock : Stock) : Runner → Runner
  | .immediate r => .immediate { r with stock }
  | .background r => .background { r with stock }

def journal : Runner → Journal
  | .immediate r => r.journal
  | .background r => r.journal

def isRunning (r : Runner) : Bool := r.stock.running

def submit (env : Environment) (thread : String) (record : Record) :
    Runner → Runner × Option String
  | .immediate r =>
    let (r, aborted) := r.submit env thread record
    (.immediate r, aborted)
  | .background r => (.background (r.submit record), none)

def update (env : Environment) (c : Config) : Runner → Runner × Outcome
  | .immediate r =>
    let (r, outcome) := r.update env c
    (.immediate r, outcome)
  | .background r =>
    let (r, outcome) := r.update c
    (.background r, outcome)

def shutdown (env : Environment) (thread : String) : Runner → Runner × Option String
  | .immediate r =>
    let (r, aborted) := r.shutdown env thread
    (.immediate r, aborted)
  | .background r => (.background (r.shutdown env), none)

def drop (env : Environment) (thread : String) : Runner → Runner × Option String
  | .immediate r =>
    let (r, aborted) := r.shutdown env thread
    (.immediate r, aborted)
  | .background r => (.background (r.drop env), none)

def settle (env : Environment) (kept : Bool) : Runner → Runner
  | .immediate r => .immediate r
  | .background r => .background (r.settle env kept)

def queued : Runner → Nat
  | .immediate _ => 0
  | .background r => r.queue.length

end Runner
end Logbook
