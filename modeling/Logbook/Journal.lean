import Logbook.Appender.Basic
set_option autoImplicit false

/-!
# The journal of a runner

The journal holds what happened between a runner and its appenders, in order: every call with its
answer, and the failures of the runner itself. Events are only added at its end. What an appender
answers depends on its earlier calls, which are read off the journal, so one appender cannot
notice what another answered.

`perform` asks for calls in turn and stops after the first that breaks off. A failed call is
reported and the next one follows.
-/
namespace Logbook

inductive Event where
  | called (handle : Handle) (call : Call) (reply : Reply)
  | workerFailed (reason : String)
  | closeFailed
  | workerLost
  deriving DecidableEq

structure Report where
  severity : Level
  message : String
  fields : List (String × String) := []
  deriving DecidableEq

namespace Report

def text (r : Report) : String :=
  r.severity.name ++ " " ++ r.message ++
    String.join (r.fields.map fun f => " " ++ f.1 ++ "=" ++ f.2)

end Report

namespace Event

/-- Failures are reported; a call that breaks off is reported by whoever catches it. -/
def report? : Event → Option Report
  | .called handle call (.failed error) =>
    some ⟨.warn, "appender failed",
      [("appender", handle.name), ("operation", call.operation), ("error", error)]⟩
  | .called _ _ _ => none
  | .workerFailed reason =>
    some ⟨.error, "log consumer thread failed; shutting the runner down", [("reason", reason)]⟩
  | .closeFailed => some ⟨.error, "appenders failed to close after consumer failure", []⟩
  | .workerLost => some ⟨.error, "log consumer thread exited abnormally", []⟩

def callTo? (appender : Nat) : Event → Option Call
  | .called handle call _ => if handle.appender = appender then some call else none
  | _ => none

end Event

structure Journal where
  events : Array Event := #[]

namespace Journal

def add (j : Journal) (event : Event) : Journal := ⟨j.events.push event⟩

def callsTo (j : Journal) (appender : Nat) : List Call :=
  j.events.toList.filterMap (Event.callTo? appender)

def reports (j : Journal) : List Report := j.events.toList.filterMap Event.report?

/-- Calls appenders in turn, up to the first call that breaks off; gives its reason. -/
def perform (appenders : Nat → Behaviour) (j : Journal) :
    List (Handle × Call) → Journal × Option String
  | [] => (j, none)
  | (handle, call) :: rest =>
    let reply := appenders handle.appender (j.callsTo handle.appender) call
    let j := j.add (.called handle call reply)
    match reply with
    | .aborted reason => (j, some reason)
    | _ => j.perform appenders rest

@[simp] theorem callsTo_add_called (j : Journal) (handle : Handle) (call : Call) (reply : Reply)
    (appender : Nat) :
    (j.add (.called handle call reply)).callsTo appender =
      j.callsTo appender ++ if handle.appender = appender then [call] else [] := by
  simp only [callsTo, add, Array.toList_push, List.filterMap_append]
  by_cases h : handle.appender = appender <;> simp [Event.callTo?, h]

end Journal
end Logbook
