import CacheWarden.Eviction.Evictor
import CacheWarden.Service.Task
/-!
A service in the course of its life: a clock, tasks, and what they work on.

Time stands still while there is anything to do, and then jumps to the next time
at which a task is due; only a clear can move it meanwhile.  `turn?` is one thing
that happens at the current time, and `next?` is that or a jump, so a life is a
sequence of `next?`.

The order of the cases in `turn?` is what makes the cancellation win: a loop that
sleeps is gone before any task that is due gets its turn.
-/

namespace CacheWarden

/-- The course that a clear takes: it may ask for the cancellation, it takes its time, and it may
fail before it reaches the cache. -/
structure Course where
  cancels : Bool
  work : Nat
  failure : Option CacheError
deriving DecidableEq, Repr

/-- A clear that takes no time and does not fail by itself. -/
def Course.smooth : Course := ⟨false, 0, none⟩

/-- A clear that was done, by the loop or by a caller. -/
structure Sweep where
  scheduled : Bool
  region : String
  start : Nat
  stop : Nat
  result : Except CacheError Nat

/-- A service's state. -/
structure Service where
  /-- Milliseconds since the start. -/
  now : Nat
  /-- The instant of the start, in milliseconds of the calendar. -/
  epoch : Int
  cancelled : Bool
  interrupted : Bool
  tasks : List Task
  /-- Trackers that take no part in waiting any more. -/
  closed : List TrackerId
  /-- The time that tasks have to end in at a shutdown. -/
  timeout : Span
  cache : Cache
  evictor : Evictor
  meter : Meter
  /-- The courses of the clears to come; beyond them, clears go smoothly. -/
  courses : List Course
  /-- The clears that were done, earliest first. -/
  sweeps : List Sweep
  /-- What was told so far, earliest first. -/
  notices : List Notice

namespace Service

/-- A service at its start, over a cache. -/
def start (epoch : Int) (timeout : Span) (cache : Cache) (worker : Worker)
    (courses : List Course) : Service where
  now := 0
  epoch := epoch
  cancelled := false
  interrupted := false
  tasks := []
  closed := []
  timeout := timeout
  cache := cache
  evictor := .new worker
  meter := .empty
  courses := courses
  sweeps := []
  notices := []

/-! ### Parts of a turn -/

/-- Tells more. -/
def tell (s : Service) (ns : List Notice) : Service := { s with notices := s.notices ++ ns }

/-- Adds a task, behind the others. -/
def spawn (s : Service) (t : Task) : Service := { s with tasks := s.tasks ++ [t] }

/-- Takes a task out. -/
def drop (s : Service) (t : Task) : Service := { s with tasks := s.tasks.erase t }

/-- Asks for the cancellation. -/
def cancel (s : Service) : Service := { s with cancelled := true }

/-- How many tasks of a tracker have not ended. -/
def pending (s : Service) (tracker : TrackerId) : Nat :=
  s.tasks.countP (·.tracker == some tracker)

/-- Clears the feed region on the course that is next, up to its result. -/
def sweep (s : Service) : Service × Except CacheError Nat :=
  let course := s.courses.headD .smooth
  let s := { s with
    courses := s.courses.tail, now := s.now + course.work
    cancelled := s.cancelled || course.cancels }
  match course.failure with
  | some e => (s, .error e)
  | none =>
    let (cache, result) := s.cache.clear Evictor.region
    ({ s with cache }, result)

/-- Clears the feed region, and takes down what came of it. -/
def clearCache (s : Service) (scheduled : Bool) : Service × Except CacheError Nat :=
  let start := s.now
  let (s, result) := s.sweep
  let (evictor, meter, ns) := s.evictor.record s.meter result (s.epoch + s.now)
  let sweep : Sweep := ⟨scheduled, Evictor.region, start, s.now, result⟩
  ({ s with evictor, meter, sweeps := s.sweeps ++ [sweep], notices := s.notices ++ ns }, result)

/-- Starts the eviction loop, if it is to be started; tells if it was. -/
def serve (s : Service) (tracker : TrackerId) : Service × Bool :=
  let (evictor, started, ns) := s.evictor.serve
  let s := { s with evictor }.tell ns
  (if started then s.spawn ⟨some tracker, .evict, .turn⟩ else s, started)

/-! ### Turns -/

/-- Puts the loop to sleep. -/
def doze (s : Service) (t : Task) (delay : Span) : Service :=
  s.spawn { t with wait := .until (s.now + delay.millisUp) }

/-- A scheduled clear; the loop sleeps on, whatever comes of it. -/
def tick (s : Service) (t : Task) : Service :=
  let (s, result) := s.clearCache true
  let s :=
    match result with
    | .ok _ => s
    | .error e => s.tell [Evictor.tickFailed e]
  s.doze t s.evictor.worker.schedule.delay

/-- The first turn of the loop. -/
def wake (s : Service) (t : Task) : Service :=
  (s.tell [s.evictor.upped]).doze t s.evictor.worker.schedule.initialDelay

/-- The turn of a task that was taken out of the list. -/
def perform (s : Service) (t : Task) : Service :=
  match t.job with
  | .evict => if t.isNew then s.wake t else s.tick t
  | .finish => s
  | .cancel => s.cancel
  | .interrupt => { s with interrupted := true }

/-- The time at which a task is due next. -/
def nextDue? (s : Service) : Option Nat := (Task.earliest? s.tasks).map (·.1)

/-- One thing that happens at the current time, if there is any: the turn of a new task; or, after
the cancellation, the end of the loop that sleeps, or the going on of the tasks that waited for it;
or the turn of a task that is due. -/
def turn? (s : Service) : Option Service :=
  match s.tasks.find? Task.isNew with
  | some t => some ((s.drop t).perform t)
  | none =>
    match s.cancelled, s.tasks.find? Task.isDozing with
    | true, some t => some ((s.drop t).tell [.workerGone Evictor.name])
    | _, _ =>
      if s.cancelled && s.tasks.any Task.isPatient then
        some { s with tasks := s.tasks.map (Task.setOff s.now) }
      else
        match Task.earliest? s.tasks with
        | some (due, t) => if due ≤ s.now then some ((s.drop t).perform t) else none
        | none => none

/-- What comes next up to a time: a turn, or a jump to the time at which one is due. -/
def next? (limit : Nat) (s : Service) : Option Service :=
  match s.turn? with
  | some s => some s
  | none =>
    match s.nextDue? with
    | some due => if due ≤ limit then some { s with now := due } else none
    | none => none

/-! ### Runs -/

/-- More turns than can be taken without a jump, if the loop's delay is not zero. -/
def turnBound (s : Service) : Nat := s.courses.length + 2 * s.tasks.length + 4

/-- More steps than there are up to a time. -/
def stepBound (s : Service) (limit : Nat) : Nat := (limit - s.now + 1) * (s.turnBound + 1)

/-- So many steps up to a time, or fewer if there are no more. -/
def run (limit : Nat) : (steps : Nat) → Service → Service
  | 0, s => s
  | n + 1, s =>
    match s.next? limit with
    | none => s
    | some s => run limit n s

/-- All that happens at the current time. -/
def settle (s : Service) : Service := s.run s.now (s.stepBound s.now)

/-- All that happens in a while. -/
def advance (s : Service) (ms : Nat) : Service :=
  let limit := s.now + ms
  let s := s.run limit (s.stepBound limit)
  { s with now := max s.now limit }

end Service

end CacheWarden
