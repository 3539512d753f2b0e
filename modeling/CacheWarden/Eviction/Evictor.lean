import CacheWarden.Cache.Store
import CacheWarden.Eviction.Counters
import CacheWarden.Meter
import CacheWarden.Settings.Schedule
/-!
The evictor: the worker that clears the feed region.

It tells of every clear in three places, which agree: its own counters, the
metrics, and a notice.  Its loop is started at most once: `served` is set by the
first start of an enabled worker and never taken back.
-/

namespace CacheWarden

/-- The evictor's state. -/
structure Evictor where
  worker : Worker
  /-- The loop was started. -/
  served : Bool
  counters : Counters
deriving DecidableEq, Repr

namespace Evictor

/-- The evictor's name. -/
def name : String := "feed-discovery-evictor"

/-- The name of the region that it clears. -/
def region : String := feedRegion

/-- An evictor that has done nothing yet. -/
def new (worker : Worker) : Evictor := ⟨worker, false, .zero⟩

/-- Starts the loop, unless the worker is switched off or was started before.  Tells if it did. -/
def serve (e : Evictor) : Evictor × Bool × List Notice :=
  if !e.worker.enabled then (e, false, [.workerDisabled name region])
  else if e.served then (e, false, [.workerServing name])
  else ({ e with served := true }, true, [])

/-- Takes down what came of a clear that ended at an instant. -/
def record (e : Evictor) (meter : Meter) (result : Except CacheError Nat) (finishedAt : Int) :
    Evictor × Meter × List Notice :=
  match result with
  | .ok items =>
    ({ e with counters := e.counters.recordSuccess (.ofNat items) finishedAt },
      meter.addEviction region (.ofNat items) finishedAt, [.regionCleared name region items])
  | .error err =>
    let counters := e.counters.recordFailure
    ({ e with counters }, meter.addEvictionFailure err.region,
      [.clearFailed name err.region counters.failures.toNat])

/-- What the loop says at its start. -/
def upped (e : Evictor) : Notice :=
  .workerUpped name region e.worker.schedule.initialDelay e.worker.schedule.delay

/-- What the loop says of a clear that failed. -/
def tickFailed (err : CacheError) : Notice := .tickFailed name err.region err.message

end Evictor

end CacheWarden
