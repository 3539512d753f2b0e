import CacheWarden.Cache.Heap
import CacheWarden.Proofs.Cache.Content
import CacheWarden.Proofs.Cache.Frame
import Mathlib
/-!
The objects in regions, and how a put and a clear change which they are.

A put brings one new object and takes away the one that it replaces
(`itemIds_put_perm`); a clear takes them all.  Objects are numbered in the order of
the puts, so how many puts there were tells which objects can be there.
-/

namespace CacheWarden

/-! ### Regions of values by key -/

namespace MapRegion

variable {K V : Type} [BEq K] [LawfulBEq K] [Hashable K]

theorem mem_items (r : MapRegion K V) (item : Item V) :
    item ∈ r.items ↔ ∃ key, r.get? key = some item := by
  unfold items
  rw [List.mem_map]
  constructor
  · rintro ⟨⟨key, _⟩, hmem, rfl⟩
    exact ⟨key, Std.HashMap.mem_toList_iff_getElem?_eq_some.mp hmem⟩
  · rintro ⟨key, hkey⟩
    exact ⟨(key, item), Std.HashMap.mem_toList_iff_getElem?_eq_some.mpr hkey, rfl⟩

variable [LawfulHashable K]

theorem nodup_toList (m : Std.HashMap K V) : m.toList.Nodup := by
  refine Std.HashMap.distinct_keys_toList.imp ?_
  rintro a b hne rfl
  exact absurd BEq.rfl (Bool.eq_false_iff.mp hne)

/-- The entries of a key. -/
theorem filter_toList_perm (m : Std.HashMap K V) (key : K) :
    (m.toList.filter (key == ·.1)).Perm (m[key]?.map (key, ·)).toList := by
  refine (List.perm_ext_iff_of_nodup ((nodup_toList m).filter _) ?_).mpr ?_
  · exact Option.toList_nodup _
  · rintro ⟨k, v⟩
    rw [List.mem_filter, Std.HashMap.mem_toList_iff_getElem?_eq_some, Option.mem_toList,
      Option.map_eq_some_iff]
    constructor
    · rintro ⟨hv, hk⟩
      obtain rfl := LawfulBEq.eq_of_beq hk
      exact ⟨v, hv, rfl⟩
    · rintro ⟨_, hv, heq⟩
      obtain ⟨rfl, rfl⟩ := Prod.mk.inj heq
      exact ⟨hv, BEq.rfl⟩

/-- A put brings a new object, and takes away the one that it replaces. -/
theorem items_put_perm (r : MapRegion K V) (key : K) (value : V) :
    ((r.get? key).toList ++ (r.put key value).items).Perm (⟨r.puts, value⟩ :: r.items) := by
  have hold : ((r.get? key).toList).Perm ((r.entries.toList.filter (key == ·.1)).map (·.2)) := by
    refine List.Perm.symm (((filter_toList_perm r.entries key).map (·.2)).trans ?_)
    unfold get?
    rcases r.entries[key]? with - | item <;> exact List.Perm.refl _
  have hnew : ((r.put key value).items).Perm
      (⟨r.puts, value⟩ :: (r.entries.toList.filter fun e => !(key == e.1)).map (·.2)) := by
    have hinsert := (Std.HashMap.toList_insert_perm (m := r.entries) (k := key)
      (v := (⟨r.puts, value⟩ : Item V))).map (·.2)
    simp only [List.map_cons, decide_not, Bool.decide_eq_true] at hinsert
    exact hinsert
  refine (hold.append hnew).trans (List.perm_middle.trans (List.Perm.cons _ ?_))
  rw [← List.map_append]
  exact (List.filter_append_perm _ _).map _

/-- The numbers of the objects are different if each number has one key only. -/
theorem nodup_numbers (r : MapRegion K V)
    (hone : ∀ key key' item item', r.get? key = some item → r.get? key' = some item' →
      item.number = item'.number → key = key') : (r.items.map (·.number)).Nodup := by
  unfold items
  rw [List.map_map]
  refine (nodup_toList r.entries).map_on ?_
  rintro ⟨key, item⟩ hmem ⟨key', item'⟩ hmem' heq
  have hitem : r.get? key = some item := Std.HashMap.mem_toList_iff_getElem?_eq_some.mp hmem
  have hitem' : r.get? key' = some item' := Std.HashMap.mem_toList_iff_getElem?_eq_some.mp hmem'
  obtain rfl := hone key key' item item' hitem hitem' heq
  rw [Option.some.inj (hitem.symm.trans hitem')]

end MapRegion

/-! ### Regions -/

/-- How many values were put into a region; only a region of values by key takes any. -/
def Region.puts? : Region → Option Nat
  | .map m => some m.puts
  | .failing _ _ _ => none

namespace Cache

/-- How many values were put into a region. -/
def puts? (c : Cache) (region : RegionId) : Option Nat := (c.region? region).bind Region.puts?

variable (c : Cache)

theorem exists_map {region : RegionId} {n : Nat} (hn : c.puts? region = some n) :
    ∃ m, c.region? region = some (.map m) ∧ m.puts = n := by
  obtain ⟨r, hr, hputs⟩ := Option.bind_eq_some_iff.mp hn
  cases r with
  | map m => exact ⟨m, hr, Option.some.inj hputs⟩
  | failing _ _ _ => cases hputs

/-- A region that takes no values is as it was. -/
theorem put_of_puts?_eq_none {region : RegionId} (hn : c.puts? region = none) (key : Key)
    (value : Json.Value) : c.put region key value = c := by
  have hregions : c.regions.modify region (·.put key value) = c.regions := by
    refine List.ext_getElem? fun i => ?_
    rw [List.getElem?_modify]
    rcases hr : c.regions[i]? with - | r
    · rfl
    · by_cases hi : region = i
      · subst hi
        cases r with
        | map m => simp [puts?, region?, hr, Region.puts?] at hn
        | failing _ _ _ => simp [Region.put]
      · simp [hi]
  unfold put
  rw [hregions]

theorem get?_of_puts?_eq_none {region : RegionId} (hn : c.puts? region = none) (key : Key) :
    c.get? region key = none := by
  unfold puts? at hn
  unfold get?
  rcases hr : c.region? region with - | (m | _)
  · rfl
  · rw [hr] at hn
    cases hn
  · rfl

theorem get?_put {region : RegionId} {n : Nat} (hn : c.puts? region = some n) (key : Key)
    (value : Json.Value) (region' : RegionId) (key' : Key) :
    (c.put region key value).get? region' key'
      = if region' = region ∧ key' = key then some ⟨n, value⟩ else c.get? region' key' := by
  obtain ⟨m, hm, rfl⟩ := c.exists_map hn
  unfold get?
  by_cases hr : region' = region
  · rw [hr, region?_put_self, hm]
    show (m.put key value).get? key' = if region = region ∧ key' = key then _ else m.get? key'
    rw [MapRegion.get?_put]
    by_cases hk : key' = key
    · simp [hk]
    · simp [hk, Ne.symm hk]
  · rw [region?_put_of_ne c hr, if_neg fun h => hr h.1]

theorem puts?_put {region : RegionId} {n : Nat} (hn : c.puts? region = some n) (key : Key)
    (value : Json.Value) (region' : RegionId) :
    (c.put region key value).puts? region'
      = if region' = region then some (n + 1) else c.puts? region' := by
  obtain ⟨m, hm, rfl⟩ := c.exists_map hn
  unfold puts?
  by_cases hr : region' = region
  · rw [hr, region?_put_self, hm, if_pos rfl]
    rfl
  · rw [region?_put_of_ne c hr, if_neg hr]

theorem get?_clearAll (region region' : RegionId) (key : Key) :
    (c.clearAll region).1.get? region' key
      = if region' = region then none else c.get? region' key := by
  unfold get?
  by_cases hr : region' = region
  · rw [hr, region?_clearAll_self, if_pos rfl]
    rcases c.region? region with - | (m | _)
    · rfl
    · exact m.get?_clearAll key
    · rfl
  · rw [region?_clearAll_of_ne c hr, if_neg hr]

theorem puts?_clearAll (region region' : RegionId) :
    (c.clearAll region).1.puts? region' = c.puts? region' := by
  unfold puts?
  by_cases hr : region' = region
  · rw [hr, region?_clearAll_self]
    rcases c.region? region with - | (m | _)
    · rfl
    · show some m.clearAll.1.puts = some m.puts
      rw [MapRegion.clearAll_eq]
    · rfl
  · rw [region?_clearAll_of_ne c hr]

/-! ### Their objects -/

theorem itemId?_put {region : RegionId} {n : Nat} (hn : c.puts? region = some n) (key : Key)
    (value : Json.Value) (region' : RegionId) (key' : Key) :
    (c.put region key value).itemId? region' key'
      = if region' = region ∧ key' = key then some ⟨region, n⟩ else c.itemId? region' key' := by
  unfold itemId?
  rw [c.get?_put hn]
  split
  · rename_i h
    rw [h.1]
    rfl
  · rfl

theorem itemId?_clearAll (region region' : RegionId) (key : Key) :
    (c.clearAll region).1.itemId? region' key
      = if region' = region then none else c.itemId? region' key := by
  unfold itemId?
  rw [get?_clearAll]
  split <;> rfl

theorem region_of_itemId? {region : RegionId} {key : Key} {item : ItemId}
    (h : c.itemId? region key = some item) : item.region = region := by
  obtain ⟨_, -, rfl⟩ := Option.map_eq_some_iff.mp h
  rfl

theorem mem_itemIds (region : RegionId) (item : ItemId) :
    item ∈ c.itemIds region ↔ ∃ key, c.itemId? region key = some item := by
  unfold itemIds itemId? get?
  rcases c.region? region with - | (m | _)
  · simp
  · show item ∈ m.items.map _ ↔ ∃ key, (m.get? key).map _ = some item
    simp only [List.mem_map, MapRegion.mem_items, Option.map_eq_some_iff]
    constructor
    · rintro ⟨i, ⟨key, hkey⟩, rfl⟩
      exact ⟨key, i, hkey, rfl⟩
    · rintro ⟨key, i, hkey, rfl⟩
      exact ⟨i, ⟨key, hkey⟩, rfl⟩
  · simp [Region.items, Region.get?]

/-- A put brings a new object, and takes away the one that it replaces. -/
theorem itemIds_put_perm {region : RegionId} {n : Nat} (hn : c.puts? region = some n) (key : Key)
    (value : Json.Value) :
    ((c.itemId? region key).toList ++ (c.put region key value).itemIds region).Perm
      (⟨region, n⟩ :: c.itemIds region) := by
  obtain ⟨m, hm, rfl⟩ := c.exists_map hn
  have hitems := (m.items_put_perm key value).map fun item => (⟨region, item.number⟩ : ItemId)
  unfold itemIds itemId? get?
  rw [region?_put_self, hm]
  rw [List.map_append] at hitems
  refine List.Perm.trans (List.Perm.of_eq ?_) hitems
  show ((m.get? key).map _).toList ++ _ = _
  rcases m.get? key with - | item <;> rfl

theorem itemIds_put_of_ne {region region' : RegionId} (h : region' ≠ region) (key : Key)
    (value : Json.Value) : (c.put region key value).itemIds region' = c.itemIds region' := by
  unfold itemIds
  rw [region?_put_of_ne c h]

/-- A region has no objects behind a clear. -/
theorem itemIds_clearAll_self (region : RegionId) : (c.clearAll region).1.itemIds region = [] := by
  refine List.eq_nil_iff_forall_not_mem.mpr fun item hmem => ?_
  obtain ⟨key, hkey⟩ := (mem_itemIds _ region item).mp hmem
  rw [itemId?_clearAll, if_pos rfl] at hkey
  cases hkey

theorem itemIds_clearAll_of_ne {region region' : RegionId} (h : region' ≠ region) :
    (c.clearAll region).1.itemIds region' = c.itemIds region' := by
  unfold itemIds
  rw [region?_clearAll_of_ne c h]

/-- A region has an object once if it has it for one key only. -/
theorem nodup_itemIds {region : RegionId}
    (hone : ∀ key key' item, c.itemId? region key = some item → c.itemId? region key' = some item →
      key = key') : (c.itemIds region).Nodup := by
  unfold itemIds
  unfold itemId? get? at hone
  rcases hr : c.region? region with - | (m | _)
  · exact List.nodup_nil
  · rw [hr] at hone
    have hnumbers : (m.items.map (·.number)).Nodup := by
      refine m.nodup_numbers fun key key' item item' hitem hitem' heq => ?_
      refine hone key key' ⟨region, item.number⟩ (congrArg (Option.map _) hitem) ?_
      rw [heq]
      exact congrArg (Option.map _) hitem'
    have hids := hnumbers.map (f := ItemId.mk region) fun _ _ h => (ItemId.mk.inj h).2
    rwa [List.map_map] at hids
  · exact List.nodup_nil

end Cache

end CacheWarden
