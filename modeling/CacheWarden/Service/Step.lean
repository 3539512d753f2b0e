import CacheWarden.Service.Closing
/-!
Steps: what callers do to a service, one thing after another.  After each step the
service settles, so what a step sets off at its own time is part of it.
-/

namespace CacheWarden

/-- A step. -/
inductive Step where
  /-- Start the eviction loop on a tracker. -/
  | serve (tracker : TrackerId)
  /-- Let time pass. -/
  | advance (ms : Nat)
  /-- Put values into a region. -/
  | fill (region : RegionId) (entries : List (Key × Json.Value))
  | get (region : RegionId) (key : Key)
  /-- Clear the feed region. -/
  | clear
  | cancel
  /-- Cancel later. -/
  | cancelAfter (ms : Nat)
  /-- Start a task that ends in some time. -/
  | spawn (tracker : TrackerId) (ms : Nat)
  /-- Start a task that ends some time after the cancellation, or never. -/
  | spawnPatient (tracker : TrackerId) (rest : Option Nat)
  /-- Close, and wait for the tasks of a tracker. -/
  | close (tracker : TrackerId)
  /-- Send an interrupt later. -/
  | interruptAfter (ms : Nat)
  /-- Wait for a closing no longer than this. -/
  | awaitClosing (tracker : TrackerId) (ms : Nat)

/-- What comes of a step. -/
inductive Reply where
  | done
  | started (yes : Bool)
  | size (n : Nat)
  | value (v : Option Json.Value)
  | cleared (result : Except CacheError Nat)
  | closing (c : Closing)

namespace Service

/-- A step before the service settles. -/
def act (s : Service) : Step → Service × Reply
  | .serve tracker =>
    let (s, started) := s.serve tracker
    (s, .started started)
  | .advance ms => (s.advance ms, .done)
  | .fill region entries =>
    let s := { s with cache := s.cache.fill region entries }
    (s, .size (s.cache.sizeOf region))
  | .get region key => (s, .value ((s.cache.get? region key).map (·.value)))
  | .clear =>
    let (s, result) := s.clearCache false
    (s, .cleared result)
  | .cancel => (s.cancel, .done)
  | .cancelAfter ms => (s.spawn ⟨none, .cancel, .until (s.now + ms)⟩, .done)
  | .spawn tracker ms => (s.spawn ⟨some tracker, .finish, .until (s.now + ms)⟩, .done)
  | .spawnPatient tracker rest =>
    (s.spawn ⟨some tracker, .finish, .cancellation rest⟩, .done)
  | .close tracker =>
    let (s, c) := s.close tracker none
    (s, .closing c)
  | .interruptAfter ms => (s.spawn ⟨none, .interrupt, .until (s.now + ms)⟩, .done)
  | .awaitClosing tracker ms =>
    let (s, c) := s.awaitClosing tracker (some (s.now + ms))
    (s, .closing c)

/-- A step. -/
def step (s : Service) (a : Step) : Service × Reply :=
  let (s, r) := s.act a
  (s.settle, r)

end Service

end CacheWarden
