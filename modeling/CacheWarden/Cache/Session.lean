import CacheWarden.Cache.Holdings
/-!
Work with regions through handles: who holds which region, and which results of
reads are kept.

A region lives as long as a handle or the registry holds it.  With the region goes its
share in its values, but not the values themselves where a result of a read is kept.
-/

namespace CacheWarden

/-- Regions in use, and handles on them by name. -/
structure Session extends Holdings where
  handles : List (String × RegionId)

/-- What can be done. -/
inductive Request where
  | create (handle : String) (region : Region)
  | createFeed (handle : String)
  | register (handle : String)
  | put (handle : String) (key : Key) (value : Json.Value)
  | fill (handle : String) (entries : List (Key × Json.Value))
  | get (handle : String) (key : Key)
  /-- Reads a value and keeps the result. -/
  | keep (handle : String) (key : Key)
  /-- Looks at a result that was kept. -/
  | kept (index : Nat)
  | size (handle : String)
  | isEmpty (handle : String)
  | name (handle : String)
  | describe (handle : String)
  | clearAll (handle : String)
  | clear (name : String)
  | contains (name : String)
  | lookup (name : String)
  | names
  /-- Asks if a handle's region is the one registered under a name. -/
  | same (handle name : String)

/-- What comes of it. -/
inductive Answer where
  | done
  | error (e : CacheError)
  | number (n : Nat)
  | flag (b : Bool)
  | text (s : String)
  | texts (ss : List String)
  | value (v : Option Json.Value)
  /-- A value, and how many owners it has. -/
  | owned (v : Option (Json.Value × Nat))
  /-- A region's name, size and emptiness. -/
  | region (r : Option (String × Nat × Bool))
  | same (b : Option Bool)

namespace Session

/-- Nothing yet. -/
def start : Session := ⟨⟨.empty, .empty, []⟩, []⟩

/-- The region of a handle. -/
def handle? (s : Session) (handle : String) : Option RegionId := Keyed.get? handle s.handles

/-- A region that a handle or the registry holds. -/
def isHeld (s : Session) (id : RegionId) : Bool :=
  s.handles.any (·.2 == id) || s.cache.registry.any (·.2 == id)

/-- Removes every entry of a region; tells how many there were. -/
def empty (s : Session) (id : RegionId) : Session × Except CacheError Nat :=
  let (holdings, result) := s.toHoldings.clearAll id
  ({ s with toHoldings := holdings }, result)

/-- Ends the regions that nobody holds. -/
def forsake (s : Session) : Session :=
  (List.range s.cache.regions.length).foldl
    (fun s id => if s.isHeld id then s else (s.empty id).1) s

/-- The answer of a result without a value. -/
def answerOf {α : Type} (f : α → Answer) : Except CacheError α → Answer
  | .ok a => f a
  | .error e => .error e

/-- Asks a region, if the handle has one. -/
def ask (s : Session) (handle : String) (f : RegionId → Answer) : Session × Answer × List Notice :=
  (s, ((s.handle? handle).map f).getD .done, [])

/-- Puts values into a region and tells its size. -/
def fill (s : Session) (handle : String) (entries : List (Key × Json.Value)) :
    Session × Answer × List Notice :=
  match s.handle? handle with
  | none => (s, .done, [])
  | some id =>
    let holdings := s.toHoldings.fill id entries
    ({ s with toHoldings := holdings }, .number (holdings.cache.sizeOf id), [])

/-- Carries out a request. -/
def step (s : Session) : Request → Session × Answer × List Notice
  | .create handle region =>
    let (cache, id) := s.cache.create region
    (({ s with cache, handles := Keyed.put handle id s.handles } : Session).forsake, .done, [])
  | .createFeed handle =>
    let (cache, id, result, notices) := s.cache.createFeed
    (({ s with cache, handles := Keyed.put handle id s.handles } : Session).forsake,
      answerOf (fun _ => .done) result, notices)
  | .register handle =>
    match s.handle? handle with
    | none => (s, .done, [])
    | some id =>
      let (cache, result, notices) := s.cache.register id
      ({ s with cache }, answerOf (fun _ => .done) result, notices)
  | .put handle key value => s.fill handle [(key, value)]
  | .fill handle entries => s.fill handle entries
  | .get handle key =>
    let item := (s.handle? handle).bind fun id => s.cache.get? id key
    (s, .value (item.map (·.value)), [])
  | .keep handle key =>
    let holdings :=
      match s.handle? handle with
      | none => { s.toHoldings with kept := s.kept ++ [none] }
      | some id => s.toHoldings.keep id key
    ({ s with toHoldings := holdings }, .number s.kept.length, [])
  | .kept index => (s, .owned ((s.toHoldings.kept? index).map fun l => (l.value, l.owners)), [])
  | .size handle => s.ask handle fun id => .number (s.cache.sizeOf id)
  | .isEmpty handle => s.ask handle fun id => .flag (s.cache.sizeOf id == 0)
  | .name handle => s.ask handle fun id => .text (s.cache.nameOf id)
  | .describe handle =>
    s.ask handle fun id => .text (((s.cache.region? id).map Region.describe).getD "")
  | .clearAll handle =>
    match s.handle? handle with
    | none => (s, .done, [])
    | some id =>
      let (s, result) := s.empty id
      (s, answerOf .number result, [])
  | .clear name =>
    match s.cache.lookup? name with
    | none => (s, .error (.unknownRegion name), [])
    | some id =>
      let (s, result) := s.empty id
      (s, answerOf .number result, [])
  | .contains name => (s, .flag (s.cache.contains name), [])
  | .lookup name =>
    let view := ((s.cache.lookup? name).bind s.cache.region?).map fun r =>
      (r.name, r.size, r.isEmpty)
    (s, .region view, [])
  | .names => (s, .texts s.cache.names, [])
  | .same handle name =>
    (s, .same ((s.cache.lookup? name).map fun id => s.handle? handle == some id), [])

end Session

end CacheWarden
