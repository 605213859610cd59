import Logbook.Config.Basic
import Logbook.Pool
set_option autoImplicit false

/-!
# The records of a runner

A runner makes its records beforehand and lends them to producers. Records made on demand are of
the same kind, and one that comes back is kept while the pool has room for it. Every record of a
runner has a serial number of its own.

Once the runner has stopped, producers get a record without room, which silently ignores all that
is logged with it.
-/
namespace Logbook

structure Stock where
  pool : Pool Record
  segmentSize : Nat
  stringCapacity : Nat
  /-- Records made so far, which is the serial number of the next one. -/
  made : Nat
  running : Bool := true
  /-- Events dropped since the last notice about dropped events. -/
  dropped : Nat := 0
  policy : ExhaustionPolicy

namespace Stock

def create (c : Config) : Stock :=
  let segmentSize := (RegionLayout.fit c.poolSize c.segmentSize).size
  let records := (List.range c.poolSize).map fun serial =>
    Record.create (Segment.zeroed segmentSize) c.stringCapacity serial
  { pool := .ofList records
    segmentSize
    stringCapacity := c.stringCapacity
    made := c.poolSize
    policy := c.policy }

/-- Lends a record; there is none when the pool of a running runner is empty. -/
def tryAcquire (s : Stock) : Option (Record × Stock) :=
  if s.running then s.pool.tryAcquire.map fun (record, pool) => (record, { s with pool })
  else some (Record.roomless, s)

def allocate (s : Stock) : Record × Stock :=
  (Record.create (Segment.zeroed s.segmentSize) s.stringCapacity s.made,
    { s with made := s.made + 1 })

def release (s : Stock) (record : Record) : Stock := { s with pool := s.pool.release record }

def noteDropped (s : Stock) : Stock := { s with dropped := s.dropped + 1 }

def takeDropped (s : Stock) : Nat × Stock := (s.dropped, { s with dropped := 0 })

def stop (s : Stock) : Stock := { s with running := false }

def dispose (s : Stock) : Stock := { s with pool := s.pool.dispose }

end Stock
end Logbook
