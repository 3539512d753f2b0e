import CacheWarden.Settings
/-!
When a worker runs: after an initial delay, and then again a fixed delay after
the end of each run.
-/

namespace CacheWarden

/-- A repeating schedule.  The delay counts from the end of one run to the start of the next. -/
structure Schedule where
  initialDelay : Span
  delay : Span
deriving DecidableEq, Repr

/-- A worker: whether it runs, and when. -/
structure Worker where
  enabled : Bool
  schedule : Schedule
deriving DecidableEq, Repr

/-- The schedule of an eviction section. -/
def Schedule.ofEviction (e : Eviction) : Schedule := ⟨e.initial, e.fixed⟩

/-- A worker switched on or off. -/
def Worker.setEnabled (w : Worker) (enabled : Bool) : Worker := { w with enabled }

/-- The worker that settings ask for. -/
def Worker.ofSettings (s : Settings) : Worker :=
  ⟨s.isEvictionEnabled, .ofEviction (s.eviction.getD .default)⟩

end CacheWarden
