import CacheWarden.Cache.Region
import CacheWarden.Keyed
import CacheWarden.Log
/-!
The regions there are, and the registry that knows some of them by name.

A region is known by the number under which it was created, so two regions of one
name are still two.  The registry holds a region under the region's own name, and
holds it for good: a second region of that name is refused.
-/

namespace CacheWarden

/-- A region's number. -/
abbrev RegionId := Nat

/-- All regions, and the registered ones by name. -/
structure Cache where
  regions : List Region
  registry : List (String × RegionId)
deriving Inhabited

/-- The region that feed discovery results are kept in. -/
def feedRegion : String := "feedDiscoveryCache"

namespace Cache

/-- No regions. -/
def empty : Cache := ⟨[], []⟩

/-! ### Regions -/

/-- A region by its number. -/
def region? (c : Cache) (id : RegionId) : Option Region := c.regions[id]?

/-- Adds a region, not registered yet. -/
def create (c : Cache) (r : Region) : Cache × RegionId :=
  ({ c with regions := c.regions ++ [r] }, c.regions.length)

/-- A region's name. -/
def nameOf (c : Cache) (id : RegionId) : String := ((c.region? id).map Region.name).getD ""

/-- A region's size. -/
def sizeOf (c : Cache) (id : RegionId) : Nat := ((c.region? id).map Region.size).getD 0

/-- The object of a key in a region. -/
def get? (c : Cache) (id : RegionId) (key : Key) : Option (Item Json.Value) :=
  (c.region? id).bind (·.get? key)

/-- Puts a value into a region. -/
def put (c : Cache) (id : RegionId) (key : Key) (value : Json.Value) : Cache :=
  { c with regions := c.regions.modify id (·.put key value) }

/-- Puts values into a region one after another. -/
def fill (c : Cache) (id : RegionId) (entries : List (Key × Json.Value)) : Cache :=
  let putAll (r : Region) : Region := entries.foldl (fun r e => r.put e.1 e.2) r
  { c with regions := c.regions.modify id putAll }

/-- Removes every entry of a region. -/
def clearAll (c : Cache) (id : RegionId) : Cache × Except CacheError Nat :=
  match c.region? id with
  | none => (c, .ok 0)
  | some r =>
    let (r, result) := r.clearAll
    ({ c with regions := c.regions.set id r }, result)

/-! ### The registry -/

/-- The region that is registered under a name. -/
def lookup? (c : Cache) (name : String) : Option RegionId := Keyed.get? name c.registry

/-- A region is registered under a name. -/
def contains (c : Cache) (name : String) : Bool := (c.lookup? name).isSome

/-- The names of the registered regions, in order. -/
def names (c : Cache) : List String := c.registry.map (·.1)

/-- Registers a region under its own name. -/
def register (c : Cache) (id : RegionId) : Cache × Except CacheError Unit × List Notice :=
  let name := c.nameOf id
  if c.contains name then (c, .error (.duplicateRegion name), [])
  else
    ({ c with registry := Keyed.put name id c.registry }, .ok (), [.regionRegistered name])

/-- Removes every entry of the region that is registered under a name. -/
def clear (c : Cache) (name : String) : Cache × Except CacheError Nat :=
  match c.lookup? name with
  | none => (c, .error (.unknownRegion name))
  | some id => c.clearAll id

/-- An empty registry in place of the one there is. -/
def forget (c : Cache) : Cache := { c with registry := [] }

/-- Creates a region and registers it. -/
def createRegistered (c : Cache) (r : Region) :
    Cache × RegionId × Except CacheError Unit × List Notice :=
  let (c, id) := c.create r
  let (c, result, notices) := c.register id
  (c, id, result, notices)

/-- Starts a registry of its own for a new feed region. -/
def createFeed (c : Cache) : Cache × RegionId × Except CacheError Unit × List Notice :=
  c.forget.createRegistered (.new feedRegion)

end Cache

end CacheWarden
