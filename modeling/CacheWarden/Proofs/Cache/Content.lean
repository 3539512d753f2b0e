import CacheWarden.Cache.Store
/-!
What a region of values by key holds, and how each operation changes that.

The objects of a region are numbered in the order in which they are put, and the
numbers go on behind a clear.  So an object that is gone never comes back: `Since`
holds of a region all of whose objects were put after so many others, a clear makes
it true, and nothing makes it false.
-/

namespace CacheWarden.MapRegion

variable {K V : Type} [BEq K] [Hashable K]

/-- All objects of a region, now and to come, are put behind the first `n` ones. -/
structure Since (n : Nat) (r : MapRegion K V) : Prop where
  puts : n ≤ r.puts
  number : ∀ key item, r.get? key = some item → n ≤ item.number

section

variable [EquivBEq K] [LawfulHashable K]

/-! ### Clears -/

/-- Behind a clear, every key misses. -/
theorem get?_clearAll (r : MapRegion K V) (key : K) : r.clearAll.1.get? key = none := by
  rw [clearAll_eq]
  exact Std.HashMap.getElem?_empty

/-- A clear leaves nothing. -/
theorem size_clearAll (r : MapRegion K V) : r.clearAll.1.size = 0 := by
  rw [clearAll_eq]
  exact Std.HashMap.size_empty

/-- Behind a clear, all objects are new. -/
theorem since_clearAll {n : Nat} {r : MapRegion K V} (h : n ≤ r.puts) : Since n r.clearAll.1 := by
  refine ⟨by rw [clearAll_eq]; exact h, ?_⟩
  intro key item hitem
  rw [get?_clearAll] at hitem
  cases hitem

/-! ### Puts -/

/-- A key has the object that is put under an equal one, and else what it had. -/
theorem get?_put (r : MapRegion K V) (key : K) (value : V) (other : K) :
    (r.put key value).get? other = if key == other then some ⟨r.puts, value⟩ else r.get? other :=
  Std.HashMap.getElem?_insert

/-- A key has the object that was put last. -/
theorem get?_put_self (r : MapRegion K V) (key : K) (value : V) :
    (r.put key value).get? key = some ⟨r.puts, value⟩ :=
  Std.HashMap.getElem?_insert_self

/-- A put adds an entry if the key had none. -/
theorem size_put (r : MapRegion K V) (key : K) (value : V) :
    (r.put key value).size = r.size + if (r.get? key).isNone then 1 else 0 := by
  unfold size get? put
  rw [Std.HashMap.size_insert]
  by_cases h : key ∈ r.entries <;> simp [h]

end

variable [LawfulBEq K] [LawfulHashable K]

/-- A put changes no other key. -/
theorem get?_put_of_ne (r : MapRegion K V) {key other : K} (h : other ≠ key) (value : V) :
    (r.put key value).get? other = r.get? other := by
  rw [get?_put, if_neg]
  rw [beq_iff_eq]
  exact Ne.symm h

/-- An object that is put is newer than all others. -/
theorem Since.put {n : Nat} {r : MapRegion K V} (h : Since n r) (key : K) (value : V) :
    Since n (r.put key value) := by
  refine ⟨Nat.le_succ_of_le h.puts, ?_⟩
  intro other item hitem
  by_cases hother : other = key
  · rw [hother, get?_put_self] at hitem
    obtain rfl := Option.some.inj hitem
    exact h.puts
  · rw [get?_put_of_ne r hother] at hitem
    exact h.number other item hitem

end CacheWarden.MapRegion

namespace CacheWarden.Region

/-- A region of values is always cleared. -/
theorem clearAll_map (r : MapRegion Key Json.Value) :
    (Region.map r).clearAll = (.map r.clearAll.1, .ok r.size) := by
  show (Region.map r.clearAll.1, Except.ok r.clearAll.2) = _
  rw [MapRegion.clearAll_eq]

end CacheWarden.Region
