import CacheWarden.Service.Step
/-!
The application: settings, a handle on the feed region, and the service that runs
on them.

It starts only if the region registered for feed discovery is the very one that
its handle leads to: with any other, what is found out would go where no clear ever
reaches.
-/

namespace CacheWarden

/-- Why an application does not start. -/
inductive AppError where
  /-- No region is registered for feed discovery, only these. -/
  | unregistered (names : List String)
  /-- Another region is registered for it. -/
  | otherRegion
  | cache (e : CacheError)
deriving DecidableEq, Repr

/-- The error in words. -/
def AppError.message : AppError → String
  | .unregistered names =>
    "cache region " ++ Text.quoted feedRegion ++ " is not registered (registered: " ++
      Text.quotedList names ++ ")"
  | .otherRegion =>
    "cache region " ++ Text.quoted feedRegion ++ " is registered with a different instance"
  | .cache e => e.message

/-- An application. -/
structure App where
  settings : Settings
  /-- The region that feed discovery reads and writes. -/
  feed : RegionId
  service : Service

namespace App

/-- The tracker of the application's tasks. -/
def tracker : TrackerId := 0

/-- Tries to start an application over a cache that others share, with a handle on the feed region;
the cache behind the attempt, and the application if it starts. -/
def attempt (settings : Settings) (epoch : Int) (cache : Cache) (feed : RegionId) :
    Cache × Except AppError App :=
  match cache.lookup? feedRegion with
  | none => (cache, .error (.unregistered cache.names))
  | some id =>
    if id = feed then
      (cache, .ok ⟨settings, feed,
        .start epoch settings.shutdownTimeout cache (.ofSettings settings) []⟩)
    else (cache, .error .otherRegion)

/-- The application over a cache, with a handle on the feed region. -/
def ofCache (settings : Settings) (epoch : Int) (cache : Cache) (feed : RegionId) :
    Except AppError App :=
  (attempt settings epoch cache feed).2

/-- Tells more. -/
def tell (a : App) (ns : List Notice) : App := { a with service := a.service.tell ns }

/-- The application over a registry and a feed region of its own, beside the regions there are. -/
def new (settings : Settings) (epoch : Int) (cache : Cache) : Except AppError App :=
  match cache.createFeed with
  | (_, _, .error e, _) => .error (.cache e)
  | (cache, feed, .ok (), ns) => (ofCache settings epoch cache feed).map (·.tell ns)

/-- Starts the worker. -/
def serve (a : App) : App :=
  let (service, started) := a.service.serve tracker
  let a := { a with service }
  let a :=
    if !started && a.settings.isEvictionEnabled then a.tell [.notStarted Evictor.name] else a
  a.tell [.started a.service.cache.names]

/-- Waits for something that ends the service, and for its tasks. -/
def awaitClosing (a : App) (limit : Option Nat) : App × Closing :=
  let (service, c) := a.service.awaitClosing tracker limit
  let a := { a with service }
  match c with
  | .undecided => (a, c)
  | .complete | .timedOut => (a.tell [.stopped], c)

/-- The end of an application that serves. -/
def finish (a : App) : App × Closing :=
  let (a, c) := a.awaitClosing none
  match c with
  | .timedOut => (a.tell [.shutdownFailed Closing.timeoutMessage], c)
  | .complete | .undecided => (a, c)

/-- Sends an interrupt at a time. -/
def interruptAt (a : App) (time : Nat) : App :=
  { a with service := a.service.spawn ⟨none, .interrupt, .until time⟩ }

/-- The whole life of an application that gets an interrupt at a time: it starts its worker, and
waits for its end. -/
def live (settings : Settings) (epoch : Int) (time : Nat) : Except AppError (App × Closing) :=
  (new settings epoch .empty).map fun a => (a.interruptAt time).serve.finish

/-! ### Steps -/

/-- A step before the service settles: the start and the wait for the end are the application's
own, and all else is the service's. -/
def act (a : App) : Step → App × Reply
  | .serve _ => (a.serve, .done)
  | .awaitClosing _ ms =>
    let (a, c) := a.awaitClosing (some (a.service.now + ms))
    (a, .closing c)
  | other =>
    let (service, r) := a.service.act other
    ({ a with service }, r)

/-- A step. -/
def step (a : App) (x : Step) : App × Reply :=
  let (a, r) := a.act x
  ({ a with service := a.service.settle }, r)

end App

end CacheWarden
