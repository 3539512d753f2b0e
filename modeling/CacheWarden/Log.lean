import CacheWarden.Span.Writer
import CacheWarden.Text.Quoted
/-!
What the service tells about itself.  A notice says what happened; the record of
a notice is what a log shows of it.
-/

namespace CacheWarden

/-- How much a record matters. -/
inductive Level where
  | trace
  | debug
  | info
  | warn
  | error
deriving DecidableEq, Repr

/-- The part of the service that a notice comes from. -/
inductive Origin where
  | store
  | evictor
  | telemetry
  | ingest
  | shutdown
  | app
  | main
deriving DecidableEq, Repr

/-- What happened. -/
inductive Notice where
  /-- A region was registered. -/
  | regionRegistered (region : String)
  /-- A clear removed so many entries. -/
  | regionCleared (worker region : String) (items : Nat)
  /-- A clear failed; so many have by now. -/
  | clearFailed (worker region : String) (failures : Nat)
  /-- The worker is switched off and does not start. -/
  | workerDisabled (worker region : String)
  /-- The worker does not start a second time. -/
  | workerServing (worker : String)
  | workerUpped (worker region : String) (initialDelay fixedDelay : Span)
  | workerGone (worker : String)
  /-- A scheduled clear failed; the schedule goes on. -/
  | tickFailed (worker region error : String)
  /-- An event's body is no document. -/
  | bodyRejected (error : String)
  /-- A handler failed on an event. -/
  | eventFailed (id type error : String)
  /-- The event that a handler failed on. -/
  | failedPayload (body : String)
  /-- The failed event is lost to its sink. -/
  | deadLetterFailed (id error : String)
  | deadLettered (id : String)
  /-- Shutdown starts because of a signal. -/
  | interrupted
  /-- Shutdown starts because it was asked for. -/
  | cancelled
  | shutDown
  /-- Tasks are left at the end of the time for a shutdown. -/
  | shutdownTimedOut (seconds pending : Nat)
  /-- The application found its worker running already. -/
  | notStarted (worker : String)
  | started (regions : List String)
  | stopped
  | settingsLoaded (path : String)
  | exporterStarted (listen : String)
  | exporterFailed (error : String)
  | shutdownFailed (error : String)
deriving DecidableEq, Repr

/-- A field's value: a text, or something that is shown as it is. -/
inductive Shown where
  | text (value : String)
  | plain (value : String)
deriving DecidableEq, Repr

/-- The value without quotes. -/
def Shown.value : Shown → String
  | .text s => s
  | .plain s => s

/-- A number in decimal. -/
def Shown.number (n : Nat) : Shown := .plain (Text.ordinal n)

/-- A record in a log. -/
structure Record where
  level : Level
  origin : Origin
  message : String
  fields : List (String × Shown)
deriving DecidableEq, Repr

/-- The name of a level. -/
def Level.name : Level → String
  | .trace => "TRACE"
  | .debug => "DEBUG"
  | .info => "INFO"
  | .warn => "WARN"
  | .error => "ERROR"

/-- Levels by weight, lightest first. -/
def Level.weight : Level → Nat
  | .trace => 0
  | .debug => 1
  | .info => 2
  | .warn => 3
  | .error => 4

/-- The target that a log filter knows a part by. -/
def Origin.target : Origin → String
  | .store => "feedcache::cache::store"
  | .evictor => "feedcache::workers::evictor::evictor"
  | .telemetry => "feedcache::workers::evictor::telemetry"
  | .ingest => "feedcache::events::ingest"
  | .shutdown => "feedcache::shutdown"
  | .app => "feedcache::app::app"
  | .main => "feedcache"

/-- The record of a notice. -/
def Notice.record : Notice → Record
  | .regionRegistered region =>
    ⟨.debug, .store, "region registered",
      [("component", .text "cache-store"), ("event", .text "region_registered"),
        ("region", .plain region)]⟩
  | .regionCleared worker region items =>
    ⟨.trace, .telemetry, "cache region cleared",
      [("name", .plain worker), ("component", .text "evictor"), ("region", .plain region),
        ("evicted_items", .number items)]⟩
  | .clearFailed worker region failures =>
    ⟨.debug, .telemetry, "eviction attempt failed",
      [("name", .plain worker), ("component", .text "evictor"), ("region", .plain region),
        ("failures_total", .number failures)]⟩
  | .workerDisabled worker region =>
    ⟨.warn, .evictor, "eviction disabled, worker not started",
      [("name", .plain worker), ("region", .plain region)]⟩
  | .workerServing worker =>
    ⟨.warn, .evictor, "already serving, nothing to start", [("name", .plain worker)]⟩
  | .workerUpped worker region initialDelay fixedDelay =>
    ⟨.info, .evictor, "worker upped",
      [("name", .plain worker), ("region", .plain region),
        ("initial_delay", .plain initialDelay.short), ("fixed_delay", .plain fixedDelay.short)]⟩
  | .workerGone worker =>
    ⟨.info, .evictor, "worker is gone", [("name", .plain worker)]⟩
  | .tickFailed worker region error =>
    ⟨.error, .evictor, "scheduled eviction failed",
      [("name", .plain worker), ("component", .text "evictor"), ("region", .plain region),
        ("error", .plain error)]⟩
  | .bodyRejected error =>
    ⟨.warn, .ingest, "event rejected",
      [("component", .text "ingest"), ("event", .text "malformed_body"),
        ("error", .plain error)]⟩
  | .eventFailed id type error =>
    ⟨.warn, .ingest, "event processing failed",
      [("component", .text "ingest"), ("event", .text "event_failed"), ("event_id", .text id),
        ("event_type", .text type), ("error", .plain error)]⟩
  | .failedPayload body =>
    ⟨.debug, .ingest, "failed event payload",
      [("component", .text "ingest"), ("payload", .plain body)]⟩
  | .deadLetterFailed id error =>
    ⟨.error, .ingest, "failed to dead-letter event",
      [("component", .text "ingest"), ("event", .text "dead_letter_failed"),
        ("event_id", .text id), ("error", .plain error)]⟩
  | .deadLettered id =>
    ⟨.info, .ingest, "event dead-lettered",
      [("component", .text "ingest"), ("event", .text "dead_lettered"), ("event_id", .text id)]⟩
  | .interrupted =>
    ⟨.info, .shutdown, "cancellation started",
      [("component", .text "graceful-shutdown"), ("event", .text "os_signal"),
        ("signal", .text "SIGINT")]⟩
  | .cancelled =>
    ⟨.info, .shutdown, "cancellation started",
      [("component", .text "graceful-shutdown"), ("event", .text "ctx_done")]⟩
  | .shutDown =>
    ⟨.info, .shutdown, "service was gracefully shut down",
      [("component", .text "graceful-shutdown"), ("event", .text "shutdown_success")]⟩
  | .shutdownTimedOut seconds pending =>
    ⟨.warn, .shutdown, "not all tasks were closed within timeout",
      [("component", .text "graceful-shutdown"), ("event", .text "shutdown_timeout"),
        ("timeout_secs", .number seconds), ("pending_tasks", .number pending)]⟩
  | .notStarted worker =>
    ⟨.warn, .app, "evictor was already running",
      [("component", .text "app"), ("scope", .plain worker), ("event", .text "not_started")]⟩
  | .started regions =>
    ⟨.info, .app, "application lifecycle",
      [("component", .text "app"), ("event", .text "started"),
        ("regions", .plain (Text.quotedList regions))]⟩
  | .stopped =>
    ⟨.info, .app, "application lifecycle",
      [("component", .text "app"), ("event", .text "stopped")]⟩
  | .settingsLoaded path =>
    ⟨.info, .main, "config loaded",
      [("component", .text "config"), ("event", .text "load_success"),
        ("path", .plain (Text.quoted path))]⟩
  | .exporterStarted listen =>
    ⟨.info, .main, "prometheus exporter initialized",
      [("component", .text "metrics"), ("event", .text "exporter_started"),
        ("listen", .plain listen)]⟩
  | .exporterFailed error =>
    ⟨.warn, .main, "metrics endpoint will not be available",
      [("component", .text "metrics"), ("event", .text "exporter_failed"),
        ("error", .plain error)]⟩
  | .shutdownFailed error =>
    ⟨.error, .main, "failed to gracefully shut down service",
      [("component", .text "main"), ("scope", .text "service"),
        ("event", .text "graceful_shutdown_failed"), ("error", .plain error)]⟩

end CacheWarden
