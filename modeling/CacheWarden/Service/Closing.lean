import CacheWarden.Service
/-!
The end of a service: it is cancelled, and the tasks of a tracker have a time to
end in.

A closing ends well at the moment when the last of these tasks ends, and badly when
the time is up first; a task that would end at that very moment is too late.  Whoever
waits for a closing may give up before either.
-/

namespace CacheWarden

/-- What a closing comes to. -/
inductive Closing where
  /-- All tasks have ended. -/
  | complete
  /-- Some have not. -/
  | timedOut
  /-- The wait was given up. -/
  | undecided
deriving DecidableEq, Repr

/-- What sets a closing off. -/
inductive Trigger where
  | cancelled
  | interrupted
deriving DecidableEq, Repr

/-- What is told of a trigger. -/
def Trigger.notice : Trigger → Notice
  | .cancelled => .cancelled
  | .interrupted => .interrupted

/-- The error of a closing that timed out. -/
def Closing.timeoutMessage : String := "graceful shutdown timeout exceeded"

namespace Service

/-- A time comes before a limit, if there is one. -/
def isBefore (time : Nat) (limit : Option Nat) : Bool := limit.all (time < ·)

/-- Nothing more happens up to a limit. -/
def giveUp (s : Service) (limit : Option Nat) : Service :=
  { s with now := max s.now (limit.getD s.now) }

/-! ### Waiting for the tasks -/

/-- The time is up. -/
def timeOut (s : Service) (tracker : TrackerId) : Service :=
  s.tell [.shutdownTimedOut s.timeout.seconds (s.pending tracker)]

/-- Waits for the tasks of a tracker up to a deadline. -/
def awaitTasks (tracker : TrackerId) (deadline : Nat) (limit : Option Nat) :
    (steps : Nat) → Service → Service × Closing
  | 0, s => (s, .undecided)
  | n + 1, s =>
    match s.turn? with
    | some s => awaitTasks tracker deadline limit n s
    | none =>
      if s.pending tracker == 0 then (s.tell [.shutDown], .complete)
      else
        match s.nextDue?.filter fun due => decide (due < deadline) && isBefore due limit with
        | some due => awaitTasks tracker deadline limit n { s with now := due }
        | none =>
          if limit.all (deadline ≤ ·) then
            ({ s with now := max s.now deadline }.timeOut tracker, .timedOut)
          else (s.giveUp limit, .undecided)

/-- Cancels the service, and waits for the tasks of a tracker as long as they may take.  Without
any time it is over at once. -/
def close (s : Service) (tracker : TrackerId) (limit : Option Nat) : Service × Closing :=
  let s := { s.cancel with closed := tracker :: s.closed }
  if s.pending tracker == 0 then (s.tell [.shutDown], .complete)
  else if s.timeout.isZero then (s.timeOut tracker, .timedOut)
  else s.awaitTasks tracker (s.now + s.timeout.millisUp) limit (4 * s.tasks.length + 4)

/-! ### Waiting for a trigger -/

/-- Waits until something sets the closing off. -/
def awaitTrigger (limit : Option Nat) : (steps : Nat) → Service → Service × Option Trigger
  | 0, s => (s, none)
  | n + 1, s =>
    match s.turn? with
    | some s => awaitTrigger limit n s
    | none =>
      if s.cancelled then (s, some .cancelled)
      else if s.interrupted then (s, some .interrupted)
      else
        match s.nextDue?.filter (isBefore · limit) with
        | some due => awaitTrigger limit n { s with now := due }
        | none => (s.giveUp limit, none)

/-- The time after which nothing but clears can happen. -/
def horizon (s : Service) : Nat :=
  s.tasks.foldl (fun time t => max time (t.due?.getD 0)) s.now

/-- Waits until something sets the closing off, and then for the tasks of a tracker.  An interrupt
that was sent before goes unnoticed. -/
def awaitClosing (s : Service) (tracker : TrackerId) (limit : Option Nat) : Service × Closing :=
  let s := { s with interrupted := false }
  match awaitTrigger limit (s.stepBound (limit.getD s.horizon)) s with
  | (s, none) => (s, .undecided)
  | (s, some trigger) => (s.tell [trigger.notice]).close tracker limit

end Service

end CacheWarden
