import CacheWarden.Address
/-!
Metrics are served at an address, if the machine lets the program listen there.
-/

namespace CacheWarden

/-- Why metrics are not served at an address: the machine's reason. -/
structure ExporterError where
  reason : String

/-- The error in words. -/
def ExporterError.message (e : ExporterError) : String :=
  "failed to install Prometheus recorder: failed to create HTTP listener: " ++ e.reason

/-- How a machine answers who wants to serve metrics at an address. -/
abbrev Listener := Address → Except ExporterError Unit

end CacheWarden
