set_option autoImplicit false

/-!
# Errors of configuration

Nothing that happens while events are logged is an error for the producer. Only making a runner and
changing its configuration can be refused, and then nothing has changed.
-/
namespace Logbook

inductive ConfigError where
  | zeroPoolSize
  | zeroSegmentSize
  | zeroSegmentCount
  | stringCapacity (capacity : Nat)
  | unknownDirective (name : String)
  | stopped
  deriving DecidableEq

namespace ConfigError

def message : ConfigError → String
  | .zeroPoolSize => "pool size must be greater than zero"
  | .zeroSegmentSize => "buffer segment size must be greater than zero"
  | .zeroSegmentCount => "buffer segment count must be greater than zero"
  | .stringCapacity capacity =>
    "string capacity must be in 1..=255, got " ++ Nat.repr capacity
  | .unknownDirective name => "unknown prefix pattern token: %" ++ name
  | .stopped => "the runner has been shut down"

end ConfigError
end Logbook
