import CacheWarden.Cache.Heap
/-!
Regions in use: the values in them, and the results of reads that somebody keeps.

A put ends the region's share in what it replaces, and a clear its share in all that it
removes.  A result that is kept has a share of its own, so it is what it is whatever
happens to the region.
-/

namespace CacheWarden

/-- A result of a read: the key that was read, and the object. -/
structure Kept where
  key : Key
  item : ItemId
deriving DecidableEq, Repr

/-- Regions, their value objects, and the results that are kept, earliest first. -/
structure Holdings where
  cache : Cache
  heap : Heap
  kept : List (Option Kept)

namespace Holdings

/-- The object of a key in a region, as a result. -/
def read (h : Holdings) (region : RegionId) (key : Key) : Option Kept :=
  (h.cache.itemId? region key).map (⟨key, ·⟩)

/-- Puts a value as a new object, and lets go of the one that was there. -/
def put (h : Holdings) (region : RegionId) (key : Key) (value : Json.Value) : Holdings :=
  let old := h.cache.itemId? region key
  let cache := h.cache.put region key value
  let heap :=
    match cache.itemId? region key with
    | none => h.heap
    | some item => h.heap.alloc item value
  { h with cache, heap := heap.releaseAll old.toList }

/-- Puts values one after another. -/
def fill (h : Holdings) (region : RegionId) (entries : List (Key × Json.Value)) : Holdings :=
  entries.foldl (fun h e => h.put region e.1 e.2) h

/-- Reads a value and keeps the result. -/
def keep (h : Holdings) (region : RegionId) (key : Key) : Holdings :=
  match h.read region key with
  | none => { h with kept := h.kept ++ [none] }
  | some k => { h with heap := h.heap.share k.item, kept := h.kept ++ [some k] }

/-- Removes every entry of a region, and lets go of their objects. -/
def clearAll (h : Holdings) (region : RegionId) : Holdings × Except CacheError Nat :=
  let gone := h.cache.itemIds region
  let (cache, result) := h.cache.clearAll region
  ({ h with cache, heap := h.heap.releaseAll gone }, result)

/-- A result that was kept, if it has an object. -/
def kept? (h : Holdings) (index : Nat) : Option Living :=
  (h.kept[index]?.join).bind fun k => h.heap.find? k.item

end Holdings

end CacheWarden
