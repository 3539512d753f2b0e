import CacheWarden.Cache.Store
/-!
Value objects and their owners.

A region owns an object for each of its keys, and so does every result of a read that
is kept.  An object lives as long as it has an owner: whoever shares it owns it too,
and the last owner that lets go of it ends it.
-/

namespace CacheWarden

/-- An object by the region that it was put into and its number there. -/
structure ItemId where
  region : RegionId
  number : Nat
deriving DecidableEq, Hashable, Repr

/-- The object of a key. -/
def Cache.itemId? (c : Cache) (region : RegionId) (key : Key) : Option ItemId :=
  (c.get? region key).map fun item => ⟨region, item.number⟩

/-- The objects of a region. -/
def Cache.itemIds (c : Cache) (region : RegionId) : List ItemId :=
  (((c.region? region).map Region.items).getD []).map fun item => ⟨region, item.number⟩

/-- An object that lives: its value, and how many owners it has. -/
structure Living where
  value : Json.Value
  owners : Nat

/-- What one owner less leaves. -/
def Living.without (l : Living) : Option Living :=
  if l.owners ≤ 1 then none else some { l with owners := l.owners - 1 }

/-- The objects that live. -/
structure Heap where
  living : Std.HashMap ItemId Living

namespace Heap

/-- No object. -/
def empty : Heap := ⟨∅⟩

/-- An object, if it lives. -/
def find? (h : Heap) (item : ItemId) : Option Living := h.living[item]?

/-- A new object with one owner. -/
def alloc (h : Heap) (item : ItemId) (value : Json.Value) : Heap :=
  ⟨h.living.insert item ⟨value, 1⟩⟩

/-- One more owner. -/
def share (h : Heap) (item : ItemId) : Heap :=
  ⟨h.living.modify item fun l => { l with owners := l.owners + 1 }⟩

/-- One owner less. -/
def release (h : Heap) (item : ItemId) : Heap :=
  ⟨h.living.alter item fun o => o.bind Living.without⟩

/-- One owner less for each of some objects. -/
def releaseAll (h : Heap) (items : List ItemId) : Heap := items.foldl release h

end Heap

end CacheWarden
