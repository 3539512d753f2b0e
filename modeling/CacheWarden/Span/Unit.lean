import CacheWarden.Span
/-!
Units of time, their lengths and the names they go by.  A month has 30.44 days
and a year 365.25 days.
-/

namespace CacheWarden.Span

/-- A unit of time. -/
inductive Measure where
  | nanosecond
  | microsecond
  | millisecond
  | second
  | minute
  | hour
  | day
  | week
  | month
  | year
deriving DecidableEq, Repr

/-- The seconds of a unit; zero below a second. -/
def Measure.seconds : Measure → Nat
  | .nanosecond | .microsecond | .millisecond => 0
  | .second => 1
  | .minute => 60
  | .hour => 3600
  | .day => 86400
  | .week => 604800
  | .month => 2630016
  | .year => 31557600

/-- The nanoseconds of a unit. -/
def Measure.nanos : Measure → Nat
  | .nanosecond => 1
  | .microsecond => 1000
  | .millisecond => nanosPerMilli
  | u => u.seconds * nanosPerSecond

/-- A unit below a second. -/
def Measure.isShort (u : Measure) : Bool := u.seconds == 0

/-- The names of a unit. -/
def Measure.names : Measure → List String
  | .nanosecond => ["nanos", "nsec", "ns"]
  | .microsecond => ["usec", "us", "µs"]
  | .millisecond => ["millis", "msec", "ms"]
  | .second => ["seconds", "second", "secs", "sec", "s"]
  | .minute => ["minutes", "minute", "min", "mins", "m"]
  | .hour => ["hours", "hour", "hr", "hrs", "h"]
  | .day => ["days", "day", "d"]
  | .week => ["weeks", "week", "wk", "wks", "w"]
  | .month => ["months", "month", "M"]
  | .year => ["years", "year", "yr", "yrs", "y"]

/-- All units, shortest first. -/
def Measure.all : List Measure :=
  [.nanosecond, .microsecond, .millisecond, .second, .minute, .hour, .day, .week, .month, .year]

/-- The unit of a name. -/
def Measure.named? (name : String) : Option Measure :=
  Measure.all.find? fun u => u.names.contains name

end CacheWarden.Span
