/-!
What a worker counts of its clears.  Counters wrap at 64 bits.
-/

namespace CacheWarden

/-- The counters of a worker. -/
structure Counters where
  runs : UInt64
  failures : UInt64
  evictedItems : UInt64
  /-- The instant of the last success; zero in front of the first. -/
  finishedAt : Int
deriving DecidableEq, Repr

namespace Counters

/-- Nothing counted yet. -/
def zero : Counters := ⟨0, 0, 0, 0⟩

instance : Inhabited Counters := ⟨zero⟩

/-- A clear removed so many entries, and ended at an instant. -/
def recordSuccess (c : Counters) (items : UInt64) (finishedAt : Int) : Counters :=
  { c with runs := c.runs + 1, evictedItems := c.evictedItems + items, finishedAt }

/-- A clear failed. -/
def recordFailure (c : Counters) : Counters :=
  { c with runs := c.runs + 1, failures := c.failures + 1 }

end Counters

end CacheWarden
