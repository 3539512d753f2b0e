import CacheWarden.Address
import CacheWarden.Span
/-!
Settings of the service.  Every section may be absent, and so may most of what a
section holds; the questions below the types answer with defaults then.
-/

namespace CacheWarden

/-- What is logged. -/
structure Logs where
  level : Option String
deriving DecidableEq, Repr

/-- When the cache is cleared. -/
structure Eviction where
  enabled : Bool
  initialDelay : Option Span
  fixedDelay : Option Span
deriving DecidableEq, Repr

/-- Where metrics are served. -/
structure Metrics where
  enabled : Bool
  listen : Option Address
deriving DecidableEq, Repr

/-- How long a shutdown may take. -/
structure Shutdown where
  timeout : Option Span
deriving DecidableEq, Repr

/-- The settings. -/
structure Settings where
  env : String
  logs : Option Logs
  eviction : Option Eviction
  metrics : Option Metrics
  shutdown : Option Shutdown
deriving DecidableEq, Repr

/-! ### Defaults -/

/-- The delay in front of the first clear, and between two. -/
def Eviction.defaultDelay : Span := Span.ofSeconds 10

/-- The time that tasks have to end in. -/
def Shutdown.defaultTimeout : Span := Span.ofSeconds 30

/-- Every interface, port 9091. -/
def Metrics.defaultListen : Address := ⟨.v4 0 0 0 0, 9091⟩

/-- Eviction where nothing is said about it. -/
def Eviction.default : Eviction :=
  ⟨true, some Eviction.defaultDelay, some Eviction.defaultDelay⟩

/-- The delay in front of the first clear. -/
def Eviction.initial (e : Eviction) : Span := e.initialDelay.getD defaultDelay

/-- The delay between the end of a clear and the start of the next. -/
def Eviction.fixed (e : Eviction) : Span := e.fixedDelay.getD defaultDelay

/-- Eviction with both delays stored. -/
def Eviction.completed (e : Eviction) : Eviction :=
  { e with initialDelay := some e.initial, fixedDelay := some e.fixed }

namespace Settings

/-! ### Questions -/

/-- The service is in production. -/
def isProd (s : Settings) : Bool := s.env == "prod"

/-- The service is under test. -/
def isTest (s : Settings) : Bool := s.env == "test"

/-- The log level that is asked for. -/
def level? (s : Settings) : Option String := s.logs.bind (·.level)

/-- Eviction runs unless it is switched off. -/
def isEvictionEnabled (s : Settings) : Bool :=
  (s.eviction.getD .default).enabled

/-- Metrics are served only if they are switched on. -/
def isMetricsEnabled (s : Settings) : Bool :=
  s.metrics.any (·.enabled)

/-- Where metrics are served. -/
def metricsListen (s : Settings) : Address :=
  (s.metrics.bind (·.listen)).getD Metrics.defaultListen

/-- The time that tasks have to end in. -/
def shutdownTimeout (s : Settings) : Span :=
  (s.shutdown.bind (·.timeout)).getD Shutdown.defaultTimeout

/-! ### Values -/

/-- Settings with an eviction section and both of its delays. -/
def completed (s : Settings) : Settings :=
  { s with eviction := some (s.eviction.getD .default).completed }

/-- Clears without a pause between them: the delay is zero. -/
def isSpinning (s : Settings) : Bool :=
  s.eviction.any fun e => e.fixed.isZero

/-- Settings for tests. -/
def forTests : Settings where
  env := "test"
  logs := some ⟨some "debug"⟩
  eviction := some .default
  metrics := some ⟨false, none⟩
  shutdown := some ⟨some (Span.ofSeconds 1)⟩

end Settings

end CacheWarden
