import CacheWarden.Cache.Holdings
import CacheWarden.Proofs.Cache.Heap
import CacheWarden.Proofs.Cache.Objects
import Mathlib
/-!
Who owns which object.

An object is held by the results that are kept of it and by the keys that its region
has for it (`Holdings.holders`), and the heap counts exactly these as its owners
(`Sound`).  A put makes one holder of a new object and takes one of what it replaces;
a clear takes all that the region has.  What still has a holder therefore still lives,
and has the value that it was put with (`Sound.valueOf_use`).
-/

namespace CacheWarden.Holdings

/-! ### Use -/

/-- What regions are used for. -/
inductive Use where
  | put (region : RegionId) (key : Key) (value : Json.Value)
  /-- Reads a value and lets go of the result. -/
  | get (region : RegionId) (key : Key)
  /-- Reads a value and keeps the result. -/
  | keep (region : RegionId) (key : Key)
  | clearAll (region : RegionId)

/-- One use. -/
def use (h : Holdings) : Use → Holdings
  | .put region key value => h.put region key value
  | .get _ _ => h
  | .keep region key => h.keep region key
  | .clearAll region => (h.clearAll region).1

/-- One use after another. -/
def after (h : Holdings) (us : List Use) : Holdings := us.foldl use h

/-- New regions of some names. -/
def start (names : List String) : Holdings := ⟨⟨names.map .new, []⟩, .empty, []⟩

/-! ### Holders -/

/-- How many hold an object: the results that are kept of it, and the keys of its region. -/
def holders (h : Holdings) (item : ItemId) : Nat :=
  h.kept.countP (·.any (·.item == item)) + (h.cache.itemIds item.region).count item

/-- The heap counts the holders, and an object is what it was put as. -/
structure Sound (h : Holdings) : Prop where
  owners : ∀ item, h.heap.owners item = h.holders item
  owned : h.heap.Owned
  /-- Only what was put is held. -/
  past : ∀ item, 0 < h.holders item →
    ∃ n, h.cache.puts? item.region = some n ∧ item.number < n
  value : ∀ region key item, h.cache.get? region key = some item →
    h.heap.valueOf ⟨region, item.number⟩ = some item.value
  /-- An object has one key, whoever holds it. -/
  key : ∃ keyOf : ItemId → Key,
    (∀ region key item, h.cache.itemId? region key = some item → keyOf item = key) ∧
      ∀ k, some k ∈ h.kept → keyOf k.item = k.key

variable {h : Holdings}

theorem holders_pos_of_itemId? {region : RegionId} {key : Key} {item : ItemId}
    (hitem : h.cache.itemId? region key = some item) : 0 < h.holders item := by
  obtain rfl := h.cache.region_of_itemId? hitem
  have hmem := (h.cache.mem_itemIds item.region item).mpr ⟨key, hitem⟩
  exact Nat.lt_add_left _ (List.count_pos_iff.mpr hmem)

theorem holders_pos_of_kept {k : Kept} (hk : some k ∈ h.kept) : 0 < h.holders k.item := by
  refine Nat.lt_add_right _ (List.countP_pos_iff.mpr ⟨some k, hk, ?_⟩)
  exact beq_self_eq_true k.item

theorem count_itemId?_of_ne {c : Cache} {region : RegionId} (key : Key) {item : ItemId}
    (hne : item.region ≠ region) : (c.itemId? region key).toList.count item = 0 := by
  refine List.count_eq_zero.mpr fun hmem => hne ?_
  exact c.region_of_itemId? (Option.mem_toList.mp hmem)

theorem count_itemIds_of_ne {c : Cache} {region : RegionId} {item : ItemId}
    (hne : item.region ≠ region) : (c.itemIds region).count item = 0 := by
  refine List.count_eq_zero.mpr fun hmem => hne ?_
  obtain ⟨key, hkey⟩ := (c.mem_itemIds region item).mp hmem
  exact c.region_of_itemId? hkey

theorem sound_start (names : List String) : (start names).Sound := by
  have hnone (region : RegionId) (key : Key) : (start names).cache.get? region key = none := by
    show (((names.map Region.new)[region]?).bind _) = none
    rw [List.getElem?_map]
    rcases names[region]? with - | name
    · rfl
    · exact Std.HashMap.getElem?_empty
  have hitems (region : RegionId) : (start names).cache.itemIds region = [] := by
    refine List.eq_nil_iff_forall_not_mem.mpr fun item hmem => ?_
    obtain ⟨key, hkey⟩ := (Cache.mem_itemIds _ region item).mp hmem
    rw [Cache.itemId?, hnone] at hkey
    cases hkey
  have hholders (item : ItemId) : (start names).holders item = 0 := by
    show 0 + _ = 0
    rw [hitems]
    rfl
  have hfind (item : ItemId) : (start names).heap.find? item = none := Std.HashMap.getElem?_empty
  refine ⟨?_, ?_, ?_, ?_, fun _ => .number 0, ?_, ?_⟩
  · intro item
    rw [hholders, Heap.owners, hfind]
    rfl
  · intro item l hl
    rw [hfind] at hl
    cases hl
  · intro item hpos
    rw [hholders] at hpos
    exact absurd hpos (Nat.lt_irrefl 0)
  · intro region key item hitem
    rw [hnone] at hitem
    cases hitem
  · intro region key item hitem
    rw [Cache.itemId?, hnone] at hitem
    cases hitem
  · rintro k ⟨⟩

/-! ### Puts -/

section Puts

variable (region : RegionId) (key : Key) (value : Json.Value)

/-- A region that takes no values is as it was. -/
theorem put_of_puts?_eq_none (hn : h.cache.puts? region = none) : h.put region key value = h := by
  simp only [put, Cache.itemId?, h.cache.put_of_puts?_eq_none hn, h.cache.get?_of_puts?_eq_none hn]
  rfl

variable {region} {n : Nat} (hn : h.cache.puts? region = some n)
include hn

theorem heap_put : (h.put region key value).heap
    = (h.heap.alloc ⟨region, n⟩ value).releaseAll (h.cache.itemId? region key).toList := by
  unfold put
  simp only [h.cache.itemId?_put hn, and_self, if_true]

/-- A new object gets a holder, and the one that was there loses one. -/
theorem holders_put (item : ItemId) :
    (h.put region key value).holders item + (h.cache.itemId? region key).toList.count item
      = h.holders item + [(⟨region, n⟩ : ItemId)].count item := by
  have hcount : ((h.cache.put region key value).itemIds item.region).count item
      + (h.cache.itemId? region key).toList.count item
      = (h.cache.itemIds item.region).count item + [(⟨region, n⟩ : ItemId)].count item := by
    by_cases hr : item.region = region
    · rw [hr]
      have hperm := (h.cache.itemIds_put_perm hn key value).count_eq item
      rw [List.count_append, List.count_cons] at hperm
      rw [List.count_singleton]
      omega
    · rw [h.cache.itemIds_put_of_ne hr, count_itemId?_of_ne key hr, List.count_singleton, if_neg]
      simp only [beq_iff_eq]
      exact fun e => hr (congrArg ItemId.region e).symm
  show h.kept.countP _ + ((h.cache.put region key value).itemIds item.region).count item + _
    = h.kept.countP _ + _ + _
  omega

namespace Sound

/-- What comes next is held by nobody yet. -/
theorem ne_next (hs : h.Sound) {item : ItemId} (hpos : 0 < h.holders item) :
    item ≠ ⟨region, n⟩ := by
  rintro rfl
  obtain ⟨m, hm, hlt⟩ := hs.past _ hpos
  obtain rfl := Option.some.inj (hn.symm.trans hm)
  exact Nat.lt_irrefl _ hlt

theorem owners_put (hs : h.Sound) (item : ItemId) :
    (h.put region key value).heap.owners item = (h.put region key value).holders item := by
  have hholders := holders_put key value hn item
  rw [heap_put key value hn, Heap.owners_releaseAll, Heap.owners_alloc]
  by_cases hnew : ⟨region, n⟩ = item
  · -- nobody holds what is put yet, nor was it there before
    have hfree : h.holders item = 0 :=
      Nat.eq_zero_of_not_pos fun hpos => hs.ne_next hn hpos hnew.symm
    have hother : (h.cache.itemId? region key).toList.count item = 0 := by
      refine List.count_eq_zero.mpr fun hmem => ?_
      exact hs.ne_next hn (holders_pos_of_itemId? (Option.mem_toList.mp hmem)) hnew.symm
    rw [if_pos hnew, hother]
    rw [hother, hfree, hnew, List.count_singleton_self] at hholders
    exact hholders.symm
  · rw [if_neg hnew, hs.owners]
    rw [List.count_singleton, if_neg (by simpa using hnew)] at hholders
    omega

/-- Whoever holds an object behind a put holds what was put, or held the object before. -/
theorem valueOf_put (hs : h.Sound) {item : ItemId}
    (held : 0 < (h.put region key value).holders item) :
    (h.put region key value).heap.valueOf item
      = if ⟨region, n⟩ = item then some value else h.heap.valueOf item := by
  rw [← hs.owners_put key value hn] at held
  rw [heap_put key value hn] at held ⊢
  rw [Heap.valueOf_releaseAll_of_pos _ held, Heap.valueOf_alloc]

/-- What is held behind a put was put by then. -/
theorem past_put (hs : h.Sound) {item : ItemId} (hpos : 0 < (h.put region key value).holders item) :
    ∃ m, (h.cache.put region key value).puts? item.region = some m ∧ item.number < m := by
  have hholders := holders_put key value hn item
  rw [h.cache.puts?_put hn]
  by_cases hnew : item = ⟨region, n⟩
  · rw [hnew, if_pos rfl]
    exact ⟨n + 1, rfl, Nat.lt_succ_self n⟩
  · rw [List.count_singleton, if_neg (by simpa using Ne.symm hnew)] at hholders
    obtain ⟨m, hm, hlt⟩ := hs.past item (by omega)
    split
    · rename_i hr
      rw [hr, hn] at hm
      obtain rfl := Option.some.inj hm
      exact ⟨n + 1, rfl, Nat.lt_succ_of_lt hlt⟩
    · exact ⟨m, hm, hlt⟩

/-- The object of a key has the value that the region has for it. -/
theorem value_put (hs : h.Sound) {region' : RegionId} {key' : Key} {item : Item Json.Value}
    (hitem : (h.cache.put region key value).get? region' key' = some item) :
    (h.put region key value).heap.valueOf ⟨region', item.number⟩ = some item.value := by
  have hheld : 0 < (h.put region key value).holders ⟨region', item.number⟩ :=
    holders_pos_of_itemId? (congrArg (Option.map _) hitem)
  rw [hs.valueOf_put key value hn hheld]
  rw [h.cache.get?_put hn] at hitem
  split at hitem
  · rename_i hkey
    obtain rfl := Option.some.inj hitem
    rw [hkey.1, if_pos rfl]
  · have hbefore : 0 < h.holders ⟨region', item.number⟩ :=
      holders_pos_of_itemId? (congrArg (Option.map _) hitem)
    rw [if_neg (hs.ne_next hn hbefore).symm]
    exact hs.value region' key' item hitem

omit hn in
protected theorem put (hs : h.Sound) (region : RegionId) : (h.put region key value).Sound := by
  rcases hn : h.cache.puts? region with - | n
  · rw [put_of_puts?_eq_none region key value hn]
    exact hs
  obtain ⟨keyOf, hmapped, hkept⟩ := hs.key
  refine ⟨hs.owners_put key value hn, ?_, fun _ => hs.past_put key value hn,
    fun _ _ _ => hs.value_put key value hn, Function.update keyOf ⟨region, n⟩ key, ?_, ?_⟩
  · rw [heap_put key value hn]
    exact (hs.owned.alloc _ _).releaseAll _
  · intro region' key' item hitem
    replace hitem : (h.cache.put region key value).itemId? region' key' = some item := hitem
    rw [h.cache.itemId?_put hn] at hitem
    split at hitem
    · rename_i hkey
      obtain rfl := Option.some.inj hitem
      rw [Function.update_self, hkey.2]
    · rw [Function.update_of_ne (hs.ne_next hn (holders_pos_of_itemId? hitem))]
      exact hmapped region' key' item hitem
  · intro k hk
    rw [Function.update_of_ne (hs.ne_next hn (holders_pos_of_kept hk))]
    exact hkept k hk

end Sound

end Puts

/-! ### Results that are kept -/

section Keeps

variable (region : RegionId) (key : Key)

theorem cache_keep : (h.keep region key).cache = h.cache := by
  unfold keep
  rcases h.read region key with - | k <;> rfl

theorem kept_keep : (h.keep region key).kept = h.kept ++ [h.read region key] := by
  unfold keep
  rcases h.read region key with - | k <;> rfl

theorem mem_kept_keep {k : Kept} (hk : some k ∈ (h.keep region key).kept) :
    some k ∈ h.kept ∨ k.key = key ∧ h.cache.itemId? region key = some k.item := by
  rw [kept_keep, List.mem_append, List.mem_singleton] at hk
  refine hk.imp_right fun hread => ?_
  obtain ⟨item, hitem, rfl⟩ := Option.map_eq_some_iff.mp hread.symm
  exact ⟨rfl, hitem⟩

theorem valueOf_keep (item : ItemId) :
    (h.keep region key).heap.valueOf item = h.heap.valueOf item := by
  unfold keep
  rcases h.read region key with - | k
  · rfl
  · exact h.heap.valueOf_share k.item item

/-- A result that is kept holds the object of the key. -/
theorem holders_keep (item : ItemId) :
    (h.keep region key).holders item
      = h.holders item + (h.cache.itemId? region key).toList.count item := by
  unfold holders
  rw [cache_keep, kept_keep, List.countP_append, Nat.add_right_comm]
  congr 1
  unfold read
  rcases h.cache.itemId? region key with - | i <;>
    simp [List.countP_singleton, List.count_singleton]

namespace Sound

/-- An object that is held lives. -/
theorem lives (hs : h.Sound) {item : ItemId} (hpos : 0 < h.holders item) :
    (h.heap.find? item).isSome = true := by
  rw [← hs.owners] at hpos
  obtain ⟨v, hv⟩ := Heap.exists_valueOf _ hpos
  obtain ⟨l, hl, -⟩ := Option.map_eq_some_iff.mp hv
  exact Option.isSome_of_mem hl

theorem owners_keep (hs : h.Sound) (item : ItemId) :
    (h.keep region key).heap.owners item = (h.keep region key).holders item := by
  rw [holders_keep, ← hs.owners]
  unfold Holdings.keep read
  rcases hi : h.cache.itemId? region key with - | i
  · rfl
  · show (h.heap.share i).owners item = _
    rw [Heap.owners_share _ (hs.lives (holders_pos_of_itemId? hi))]
    simp [List.count_singleton]

protected theorem keep (hs : h.Sound) : (h.keep region key).Sound := by
  obtain ⟨keyOf, hmapped, hkept⟩ := hs.key
  refine ⟨hs.owners_keep region key, ?_, ?_, ?_, keyOf, ?_, ?_⟩
  · unfold Holdings.keep
    rcases h.read region key with - | k
    · exact hs.owned
    · exact hs.owned.share k.item
  · intro item hpos
    rw [cache_keep]
    rw [holders_keep] at hpos
    rcases Nat.eq_zero_or_pos (h.holders item) with hzero | hbefore
    · -- who is held by the new result only is held by the region already
      rw [hzero, Nat.zero_add] at hpos
      have hitem := Option.mem_toList.mp (List.count_pos_iff.mp hpos)
      exact hs.past item (holders_pos_of_itemId? hitem)
    · exact hs.past item hbefore
  · intro region' key' item hitem
    rw [cache_keep] at hitem
    rw [valueOf_keep]
    exact hs.value region' key' item hitem
  · intro region' key' item hitem
    rw [cache_keep] at hitem
    exact hmapped region' key' item hitem
  · intro k hk
    rcases mem_kept_keep region key hk with hbefore | ⟨hkey, hitem⟩
    · exact hkept k hbefore
    · rw [hkey]
      exact hmapped region key k.item hitem

end Sound

end Keeps

/-! ### Clears -/

section Clears

variable (region : RegionId)

/-- The objects of the region lose the holders that they have there. -/
theorem holders_clearAll (item : ItemId) :
    (h.clearAll region).1.holders item + (h.cache.itemIds region).count item = h.holders item := by
  show h.kept.countP _ + ((h.cache.clearAll region).1.itemIds item.region).count item + _
    = h.kept.countP _ + _
  rw [Nat.add_assoc]
  congr 1
  by_cases hr : item.region = region
  · rw [hr, h.cache.itemIds_clearAll_self, List.count_nil, Nat.zero_add]
  · rw [h.cache.itemIds_clearAll_of_ne hr, count_itemIds_of_ne hr, Nat.add_zero]

namespace Sound

theorem owners_clearAll (hs : h.Sound) (item : ItemId) :
    (h.clearAll region).1.heap.owners item = (h.clearAll region).1.holders item := by
  have hholders := holders_clearAll (h := h) region item
  show (h.heap.releaseAll (h.cache.itemIds region)).owners item = _
  rw [Heap.owners_releaseAll, hs.owners]
  omega

/-- An object that is held behind a clear has the value that it had. -/
theorem valueOf_clearAll (hs : h.Sound) {item : ItemId}
    (held : 0 < (h.clearAll region).1.holders item) :
    (h.clearAll region).1.heap.valueOf item = h.heap.valueOf item := by
  rw [← hs.owners_clearAll] at held
  exact Heap.valueOf_releaseAll_of_pos h.heap held

protected theorem clearAll (hs : h.Sound) : (h.clearAll region).1.Sound := by
  obtain ⟨keyOf, hmapped, hkept⟩ := hs.key
  refine ⟨hs.owners_clearAll region, hs.owned.releaseAll _, ?_, ?_, keyOf, ?_, hkept⟩
  · intro item hpos
    show ∃ n, (h.cache.clearAll region).1.puts? item.region = some n ∧ _
    rw [h.cache.puts?_clearAll]
    exact hs.past item (Nat.lt_of_lt_of_le hpos (Nat.le.intro (holders_clearAll region item)))
  · intro region' key item hitem
    rw [hs.valueOf_clearAll region (holders_pos_of_itemId? (congrArg (Option.map _) hitem))]
    replace hitem : (h.cache.clearAll region).1.get? region' key = some item := hitem
    rw [h.cache.get?_clearAll] at hitem
    split at hitem
    · cases hitem
    · exact hs.value region' key item hitem
  · intro region' key item hitem
    replace hitem : (h.cache.clearAll region).1.itemId? region' key = some item := hitem
    rw [h.cache.itemId?_clearAll] at hitem
    split at hitem
    · cases hitem
    · exact hmapped region' key item hitem

end Sound

end Clears

/-! ### Runs -/

namespace Sound

protected theorem use (hs : h.Sound) (u : Use) : (h.use u).Sound := by
  cases u with
  | put region key value => exact hs.put key value region
  | get _ _ => exact hs
  | keep region key => exact hs.keep region key
  | clearAll region => exact hs.clearAll region

/-- No use changes the value of an object that is held before and behind it. -/
theorem valueOf_use (hs : h.Sound) (u : Use) {item : ItemId} (before : 0 < h.holders item)
    (behind : 0 < (h.use u).holders item) : (h.use u).heap.valueOf item = h.heap.valueOf item := by
  cases u with
  | put region key value =>
    rcases hn : h.cache.puts? region with - | n
    · show (h.put region key value).heap.valueOf item = _
      rw [put_of_puts?_eq_none region key value hn]
    · refine (hs.valueOf_put key value hn behind).trans (if_neg ?_)
      exact (hs.ne_next hn before).symm
  | get _ _ => rfl
  | keep region key => exact valueOf_keep region key item
  | clearAll region => exact hs.valueOf_clearAll region behind

protected theorem after (hs : h.Sound) (us : List Use) : (h.after us).Sound := by
  induction us generalizing h with
  | nil => exact hs
  | cons u us ih => exact ih (hs.use u)

end Sound

end CacheWarden.Holdings
