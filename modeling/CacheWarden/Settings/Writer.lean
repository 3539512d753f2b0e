import CacheWarden.Address.Writer
import CacheWarden.Json.Writer
import CacheWarden.Settings
import CacheWarden.Span.Writer
/-!
Settings as JSON text.  All fields are written, null where nothing is stored, in
an order of their own.
-/

namespace CacheWarden

open Json

/-- A span as a string in units. -/
def Span.json (s : Span) : List Char := stringText s.text

/-- An address as a string. -/
def Address.json (a : Address) : List Char := stringText a.text

/-- The log section. -/
def Logs.json (l : Logs) : List Char :=
  membersText [("level", optionText stringText l.level)]

/-- The eviction section. -/
def Eviction.json (e : Eviction) : List Char :=
  membersText [("enabled", boolText e.enabled),
    ("initial_delay", optionText Span.json e.initialDelay),
    ("fixed_delay", optionText Span.json e.fixedDelay)]

/-- The metrics section. -/
def Metrics.json (m : Metrics) : List Char :=
  membersText [("enabled", boolText m.enabled), ("listen", optionText Address.json m.listen)]

/-- The shutdown section. -/
def Shutdown.json (s : Shutdown) : List Char :=
  membersText [("timeout", optionText Span.json s.timeout)]

/-- All settings. -/
def Settings.json (s : Settings) : String :=
  let app := membersText [("env", stringText s.env),
    ("logs", optionText Logs.json s.logs),
    ("eviction", optionText Eviction.json s.eviction),
    ("metrics", optionText Metrics.json s.metrics),
    ("shutdown", optionText Shutdown.json s.shutdown)]
  String.ofList (membersText [("app", app)])

end CacheWarden
