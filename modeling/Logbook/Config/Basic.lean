import Logbook.Appender.Basic
import Logbook.Config.Error
set_option autoImplicit false

/-!
# Configurations

Sizes, strategy and `daemon` are read when a runner starts. The other entries can be replaced while
it runs; `arrange` checks a whole configuration and gives these in the form in which a runner takes
them over. Of several faults the first in the order pool, segments, strings, heading is reported.
-/
namespace Logbook

inductive Strategy where
  | immediate
  | background
  deriving DecidableEq

inductive ExhaustionPolicy where
  | drop
  /-- The event is dropped and counted, and the count is logged. -/
  | dropAndNotify
  /-- A record is made that does not come from the pool. -/
  | allocate
  | wait
  deriving DecidableEq

structure Config where
  poolSize : Nat := 1024
  segmentSize : Nat := 128
  stringCapacity : Nat := 32
  strategy : Strategy := .background
  daemon : Bool := true
  settings : Settings := {}
  heading : String := "%time - %level - %logger || "
  policy : ExhaustionPolicy := .dropAndNotify
  appenders : List Handle := []

/-- What a runner takes over from a configuration while it runs. -/
structure Arrangement where
  heading : Line.Heading
  settings : Settings
  policy : ExhaustionPolicy
  handles : List Handle

namespace Strategy

def title : Strategy → String
  | .immediate => "Sync"
  | .background => "Async"

end Strategy

namespace ExhaustionPolicy

def title : ExhaustionPolicy → String
  | .drop => "Drop"
  | .dropAndNotify => "DropAndNotify"
  | .allocate => "Allocate"
  | .wait => "Wait"

end ExhaustionPolicy

namespace Config

def arrange (c : Config) : Except ConfigError Arrangement :=
  if c.poolSize = 0 then .error .zeroPoolSize
  else if c.segmentSize = 0 then .error .zeroSegmentSize
  else if c.stringCapacity = 0 ∨ maxStringCapacity < c.stringCapacity then
    .error (.stringCapacity c.stringCapacity)
  else
    match Line.Heading.parse c.heading with
    | .error name => .error (.unknownDirective name)
    | .ok heading => .ok ⟨heading, c.settings, c.policy, c.appenders⟩

def describe (c : Config) : String :=
  "LogConfig \x7b pool_size: " ++ Number.decimalText c.poolSize ++
    ", segment_size: " ++ Number.decimalText c.segmentSize ++
    ", string_capacity: " ++ Number.decimalText c.stringCapacity ++
    ", strategy: " ++ c.strategy.title ++
    ", background_thread_is_daemon: " ++ (if c.daemon then "true" else "false") ++
    ", render: " ++ c.settings.describe ++
    ", prefix_pattern: " ++ Text.Quoted.encode c.heading ++
    ", exhaustion_policy: " ++ c.policy.title ++
    ", appenders: " ++ Number.decimalText c.appenders.length ++ " \x7d"

end Config
end Logbook
