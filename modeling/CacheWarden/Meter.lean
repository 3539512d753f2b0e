import CacheWarden.Decimal.Notation
/-!
Metrics: counters, which wrap at 64 bits, and gauges, which hold what was set
last.  There is one sample for each metric and region that was touched; metrics
that are not about a region have one sample in all.
-/

namespace CacheWarden

/-- What is counted. -/
inductive Counter where
  | evictions (region : String)
  | evictedItems (region : String)
  | evictionFailures (region : String)
  | deadLettered
  | malformed
deriving DecidableEq, Repr

/-- All samples: the counters, and the instants at which regions were last cleared. -/
structure Meter where
  counters : List (Counter × UInt64)
  finished : List (String × Int)
deriving DecidableEq, Repr

namespace Meter

/-- No samples. -/
def empty : Meter := ⟨[], []⟩

instance : Inhabited Meter := ⟨empty⟩

/-! ### Recording -/

/-- Puts a value under a key, over an earlier one. -/
def assign {K V : Type} [BEq K] (key : K) (value : V) : List (K × V) → List (K × V)
  | [] => [(key, value)]
  | e :: rest => if e.1 == key then (key, value) :: rest else e :: assign key value rest

/-- What a counter stands at. -/
def count (m : Meter) (c : Counter) : UInt64 := (m.counters.lookup c).getD 0

/-- Counts on. -/
def add (m : Meter) (c : Counter) (n : UInt64) : Meter :=
  { m with counters := assign c (m.count c + n) m.counters }

/-- A clear removed so many entries of a region, and ended at an instant. -/
def addEviction (m : Meter) (region : String) (items : UInt64) (finishedAt : Int) : Meter :=
  let m := (m.add (.evictions region) 1).add (.evictedItems region) items
  { m with finished := assign region finishedAt m.finished }

/-- A clear failed on a region. -/
def addEvictionFailure (m : Meter) (region : String) : Meter := m.add (.evictionFailures region) 1

/-- Events went to the dead letters. -/
def addDeadLettered (m : Meter) (n : UInt64) : Meter := m.add .deadLettered n

/-- Bodies were rejected. -/
def addMalformed (m : Meter) (n : UInt64) : Meter := m.add .malformed n

/-! ### Writing -/

/-- A label's value: line feeds and quotes behind a backslash, backslashes doubled, but two in a
row are written as two.  `pending` tells of a backslash that is not written yet. -/
def labelText : (pending : Bool) → List Char → List Char
  | pending, [] => if pending then ['\\', '\\'] else []
  | pending, c :: cs =>
    if c = '\n' then '\\' :: 'n' :: labelText pending cs
    else if c = '"' then '\\' :: '"' :: labelText false cs
    else if c = '\\' then
      if pending then '\\' :: '\\' :: labelText false cs else labelText true cs
    else if pending then '\\' :: '\\' :: c :: labelText false cs
    else c :: labelText false cs

/-- A metric of a region. -/
def labelled (name region : String) : String :=
  name ++ "\x7bregion=\"" ++ String.ofList (labelText false region.toList) ++ "\"\x7d"

/-- A counter's name and label. -/
def Counter.series : Counter → String
  | .evictions region => labelled "feed_cache_evictions_total" region
  | .evictedItems region => labelled "feed_cache_evicted_items_total" region
  | .evictionFailures region => labelled "feed_cache_eviction_failures_total" region
  | .deadLettered => "events_dead_lettered_total"
  | .malformed => "events_malformed_total"

/-- A gauge's name and label. -/
def finishedSeries (region : String) : String :=
  labelled "feed_cache_eviction_last_finished_at_ms" region

/-- The lines of all samples, in order.  An instant is written as the double nearest to it;
without `instants` it is left out. -/
def lines (m : Meter) (instants : Bool) : List String :=
  let counters := m.counters.map fun s =>
    Counter.series s.1 ++ " " ++ Text.ordinal s.2.toNat
  let gauges := m.finished.map fun s =>
    if instants then finishedSeries s.1 ++ " " ++ String.ofList (Decimal.plainNearest s.2)
    else finishedSeries s.1
  (counters ++ gauges).mergeSort fun a b => decide (a ≤ b)

end Meter

end CacheWarden
