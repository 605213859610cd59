import Logbook.Line.Formatter
set_option autoImplicit false

/-!
# Appenders

An appender is a destination of lines, supplied by the program that logs. What it answers to a call
may depend on all calls it got before and on nothing else. It reports an error by answering
`failed`; a call that never returns because the appender broke off is `aborted`.

A configuration refers to appenders by handles. Several handles may refer to one appender.
-/
namespace Logbook

inductive Call where
  | start
  | write (line : Line)
  | flush
  | dispose
  deriving DecidableEq

namespace Call

def operation : Call → String
  | .start => "initialize"
  | .write _ => "write"
  | .flush => "flush"
  | .dispose => "dispose"

end Call

inductive Reply where
  | ok
  | failed (error : String)
  | aborted (reason : String)
  deriving DecidableEq

namespace Reply

def ofError? : Option String → Reply
  | none => .ok
  | some error => .failed error

end Reply

/-- The answer to a call after the given earlier calls, the first of them first. -/
abbrev Behaviour := List Call → Call → Reply

/-- A named reference to an appender, for events from a level on. -/
structure Handle where
  name : String
  minLevel : Level := .trace
  appender : Nat
  deriving DecidableEq

namespace Handle

def sameAppender (a b : Handle) : Bool := decide (a.appender = b.appender)

def isAmong (h : Handle) (handles : List Handle) : Bool := handles.any h.sameAppender

def describe (h : Handle) : String :=
  "SharedAppender \x7b name: " ++ Text.Quoted.encode h.name ++ ", min_level: " ++
    h.minLevel.title ++ " \x7d"

end Handle
end Logbook
