set_option autoImplicit false

/-!
# What a worker does when there is nothing to deliver

After some events the first turn without one flushes the appenders, and the next one takes over a
configuration that was published meanwhile. A configuration that is published while nothing is
logged is taken over at the next turn.
-/
namespace Logbook

inductive Phase where
  | quiet
  | flushDue
  | changeDue
  deriving DecidableEq

inductive Turn where
  | flush
  | change
  | rest
  deriving DecidableEq

namespace Phase

def afterEvent : Phase := .flushDue

def turn (published : Bool) : Phase → Turn × Phase
  | .flushDue => (.flush, .changeDue)
  | .changeDue => (.change, .quiet)
  | .quiet => (if published then .change else .rest, .quiet)

end Phase
end Logbook
