import CacheWarden.Proofs.Cache.Ownership
import Mathlib
/-!
What a reader can rely on.

A result that is kept is what it was when it was read, whatever the region is used for
since.  Two reads of a key find one object unless the key was put or the region was
cleared between them: what comes behind such a use has a higher number than all that
was there before (`Behind`), and the numbers never go back.
-/

namespace CacheWarden.Holdings

/-- The use takes what a region has for a key: a put under the key, or a clear of the region. -/
def Use.Takes (region : RegionId) (key : Key) : Use → Prop
  | .put region' key' _ => region' = region ∧ key' = key
  | .clearAll region' => region' = region
  | .get _ _ | .keep _ _ => False

variable {h : Holdings}

/-! ### Kept results stay -/

theorem kept_use (h : Holdings) (u : Use) : h.kept <+: (h.use u).kept := by
  cases u with
  | keep region key =>
    show _ <+: (h.keep region key).kept
    rw [kept_keep]
    exact List.prefix_append _ _
  | put _ _ _ | get _ _ | clearAll _ => exact List.prefix_rfl

theorem kept_after (h : Holdings) (us : List Use) : h.kept <+: (h.after us).kept := by
  induction us generalizing h with
  | nil => exact List.prefix_rfl
  | cons u us ih => exact (kept_use h u).trans (ih (h.use u))

/-- The value of what is kept is the same behind any use. -/
theorem Sound.valueOf_after (hs : h.Sound) (us : List Use) {k : Kept} (hk : some k ∈ h.kept) :
    (h.after us).heap.valueOf k.item = h.heap.valueOf k.item := by
  induction us generalizing h with
  | nil => rfl
  | cons u us ih =>
    have hk' : some k ∈ (h.use u).kept := (kept_use h u).subset hk
    refine (ih (hs.use u) hk').trans ?_
    exact hs.valueOf_use u (holders_pos_of_kept hk) (holders_pos_of_kept hk')

theorem map_value_kept? (h : Holdings) (index : Nat) :
    (h.kept? index).map (·.value) = h.kept[index]?.join.bind fun k => h.heap.valueOf k.item := by
  unfold kept?
  rcases h.kept[index]?.join with - | k <;> rfl

/-- A result has, whenever it is looked at, the value that the region had when it was read. -/
theorem Sound.value_kept? (hs : h.Sound) (region : RegionId) (key : Key) (us : List Use) :
    (((h.keep region key).after us).kept? h.kept.length).map (·.value)
      = (h.cache.get? region key).map (·.value) := by
  have hlast : (h.keep region key).kept[h.kept.length]? = some (h.read region key) := by
    rw [kept_keep, List.getElem?_concat_length]
  have hkept : ((h.keep region key).after us).kept[h.kept.length]? = some (h.read region key) := by
    obtain ⟨later, hlater⟩ := kept_after (h.keep region key) us
    rw [← hlater, List.getElem?_append_left (List.getElem?_eq_some_iff.mp hlast).1, hlast]
  rw [map_value_kept?, hkept]
  rcases hget : h.cache.get? region key with - | item
  · have hread : h.read region key = none := by
      unfold read Cache.itemId?
      rw [hget]
      rfl
    rw [hread]
    rfl
  · have hread : h.read region key = some ⟨key, ⟨region, item.number⟩⟩ := by
      unfold read Cache.itemId?
      rw [hget]
      rfl
    rw [hread] at hlast ⊢
    show ((h.keep region key).after us).heap.valueOf _ = some item.value
    rw [(hs.keep region key).valueOf_after us (List.mem_of_getElem? hlast), valueOf_keep]
    exact hs.value region key item hget

/-! ### Which object a key has -/

/-- What a use makes of the regions: a value is put into a region that takes it, or a region is
cleared, or nothing changes, and then there is nothing to take either. -/
inductive Effect (c : Cache) : Use → Cache → Prop
  | none (u : Use) (idle : ∀ region key, u.Takes region key → c.itemId? region key = none) :
      Effect c u c
  | put {region : RegionId} (key : Key) (value : Json.Value) {n : Nat}
      (takes : c.puts? region = some n) :
      Effect c (.put region key value) (c.put region key value)
  | clearAll (region : RegionId) : Effect c (.clearAll region) (c.clearAll region).1

theorem effect_use (h : Holdings) (u : Use) : Effect h.cache u (h.use u).cache := by
  cases u with
  | put region key value =>
    rcases hn : h.cache.puts? region with - | n
    · show Effect h.cache _ (h.put region key value).cache
      rw [put_of_puts?_eq_none region key value hn]
      refine .none _ ?_
      rintro _ _ ⟨rfl, rfl⟩
      rw [Cache.itemId?, h.cache.get?_of_puts?_eq_none hn]
      rfl
    · exact .put key value hn
  | get _ _ => exact .none _ fun _ _ htakes => htakes.elim
  | keep region key =>
    show Effect h.cache _ (h.keep region key).cache
    rw [cache_keep]
    exact .none _ fun _ _ htakes => htakes.elim
  | clearAll region => exact .clearAll region

/-- What a region has for a key, now and to come, is put behind the first `n` ones. -/
structure Behind (n : Nat) (region : RegionId) (key : Key) (c : Cache) : Prop where
  puts : ∀ m, c.puts? region = some m → n ≤ m
  number : ∀ item, c.itemId? region key = some item → n ≤ item.number

variable {n : Nat} {region : RegionId} {key : Key}

/-- The number of puts does not go back. -/
theorem puts_use (hputs : ∀ m, h.cache.puts? region = some m → n ≤ m) (u : Use) (m : Nat)
    (hm : (h.use u).cache.puts? region = some m) : n ≤ m := by
  have he := effect_use h u
  generalize (h.use u).cache = c at he hm
  cases he with
  | none _ _ => exact hputs m hm
  | put key' value takes =>
    rw [h.cache.puts?_put takes] at hm
    split at hm
    · rename_i hr
      obtain rfl := Option.some.inj hm
      exact Nat.le_succ_of_le (hputs _ (hr ▸ takes))
    · exact hputs m hm
  | clearAll region' =>
    rw [h.cache.puts?_clearAll] at hm
    exact hputs m hm

/-- What a use takes is gone, and what it puts for it is new. -/
theorem number_of_takes {u : Use} (htakes : u.Takes region key) {item : ItemId}
    (hitem : (h.use u).cache.itemId? region key = some item) :
    h.cache.puts? region = some item.number := by
  have he := effect_use h u
  generalize (h.use u).cache = c at he hitem
  cases he with
  | none _ idle =>
    rw [idle region key htakes] at hitem
    cases hitem
  | put key' value takes =>
    obtain ⟨rfl, rfl⟩ := htakes
    rw [h.cache.itemId?_put takes, if_pos ⟨rfl, rfl⟩] at hitem
    obtain rfl := Option.some.inj hitem
    exact takes
  | clearAll region' =>
    rw [h.cache.itemId?_clearAll, if_pos htakes.symm] at hitem
    cases hitem

/-- What a use does not take stays. -/
theorem itemId?_use {u : Use} (hleave : ¬ u.Takes region key) :
    (h.use u).cache.itemId? region key = h.cache.itemId? region key := by
  have he := effect_use h u
  generalize (h.use u).cache = c at he
  cases he with
  | none _ _ => rfl
  | put key' value takes =>
    rw [h.cache.itemId?_put takes, if_neg]
    exact fun hsame => hleave ⟨hsame.1.symm, hsame.2.symm⟩
  | clearAll region' =>
    rw [h.cache.itemId?_clearAll, if_neg]
    exact fun hsame => hleave hsame.symm

protected theorem Behind.use (hb : Behind n region key h.cache) (u : Use) :
    Behind n region key (h.use u).cache := by
  refine ⟨puts_use hb.puts u, fun item hitem => ?_⟩
  by_cases htakes : u.Takes region key
  · exact hb.puts _ (number_of_takes htakes hitem)
  · exact hb.number item (itemId?_use htakes ▸ hitem)

protected theorem Behind.after (hb : Behind n region key h.cache) (us : List Use) :
    Behind n region key (h.after us).cache := by
  induction us generalizing h with
  | nil => exact hb
  | cons u us ih => exact ih (hb.use u)

/-- Once the key was put or the region cleared, all is new. -/
theorem behind_after (hputs : ∀ m, h.cache.puts? region = some m → n ≤ m) {us : List Use}
    (htakes : ∃ u ∈ us, u.Takes region key) : Behind n region key (h.after us).cache := by
  induction us generalizing h with
  | nil =>
    obtain ⟨u, hu, -⟩ := htakes
    cases hu
  | cons u us ih =>
    obtain ⟨v, hv, htake⟩ := htakes
    rcases List.mem_cons.mp hv with rfl | hv
    · have hb : Behind n region key (h.use v).cache :=
        ⟨puts_use hputs v, fun item hitem => hputs _ (number_of_takes htake hitem)⟩
      exact hb.after us
    · exact ih (puts_use hputs u) ⟨v, hv, htake⟩

theorem itemId?_after {us : List Use} (hleave : ∀ u ∈ us, ¬ u.Takes region key) :
    (h.after us).cache.itemId? region key = h.cache.itemId? region key := by
  induction us generalizing h with
  | nil => rfl
  | cons u us ih =>
    obtain ⟨hfirst, hrest⟩ := List.forall_mem_cons.mp hleave
    exact (ih hrest).trans (itemId?_use hfirst)

theorem read_eq_some_iff {k : Kept} :
    h.read region key = some k ↔ k.key = key ∧ h.cache.itemId? region key = some k.item := by
  unfold read
  rw [Option.map_eq_some_iff]
  constructor
  · rintro ⟨item, hitem, rfl⟩
    exact ⟨rfl, hitem⟩
  · rintro ⟨rfl, hitem⟩
    exact ⟨k.item, hitem, rfl⟩

/-- Two reads of a key find one object exactly if nothing took it between them. -/
theorem Sound.read_after_iff (hs : h.Sound) {k : Kept} (hread : h.read region key = some k)
    (us : List Use) :
    (h.after us).read region key = some k ↔ ∀ u ∈ us, ¬ u.Takes region key := by
  obtain ⟨hkey, hitem⟩ := read_eq_some_iff.mp hread
  rw [read_eq_some_iff]
  constructor
  · rintro ⟨-, hlater⟩ u hu htakes
    obtain ⟨m, hm, hlt⟩ := hs.past k.item (holders_pos_of_itemId? hitem)
    rw [h.cache.region_of_itemId? hitem] at hm
    have hputs : ∀ m', h.cache.puts? region = some m' → m ≤ m' := fun m' hm' =>
      (Option.some.inj (hm.symm.trans hm')).le
    exact absurd ((behind_after hputs ⟨u, hu, htakes⟩).number k.item hlater) (Nat.not_le.mpr hlt)
  · intro hleave
    exact ⟨hkey, (itemId?_after hleave).trans hitem⟩

/-! ### Owners -/

/-- The region has an object for the key that it was read under, or not at all. -/
theorem Sound.count_itemIds (hs : h.Sound) {k : Kept} (hk : some k ∈ h.kept) :
    (h.cache.itemIds k.item.region).count k.item
      = if h.read k.item.region k.key = some k then 1 else 0 := by
  obtain ⟨keyOf, hmapped, hkept⟩ := hs.key
  have hone : (h.cache.itemIds k.item.region).Nodup := by
    refine h.cache.nodup_itemIds fun key key' item hitem hitem' => ?_
    rw [← hmapped _ key item hitem, hmapped _ key' item hitem']
  rw [hone.count]
  refine if_congr ?_ rfl rfl
  rw [h.cache.mem_itemIds, read_eq_some_iff]
  constructor
  · rintro ⟨key, hkey⟩
    have hown : k.key = key := (hkept k hk).symm.trans (hmapped _ key k.item hkey)
    exact ⟨rfl, hown ▸ hkey⟩
  · rintro ⟨-, hkey⟩
    exact ⟨k.key, hkey⟩

/-! ### The law -/

/-- What readers can rely on at some moment. -/
structure ReaderLaw (h : Holdings) : Prop where
  /-- A result that is kept now has the value that the region has now, however the regions are used
  from now on. -/
  constant : ∀ region key us,
    (((h.keep region key).after us).kept? h.kept.length).map (·.value)
      = (h.cache.get? region key).map (·.value)
  /-- A later read of a key finds the object that a read finds now exactly if the key was not put
  and the region was not cleared in between. -/
  same : ∀ region key k us, h.read region key = some k →
    ((h.after us).read region key = some k ↔ ∀ u ∈ us, ¬ u.Takes region key)
  /-- What is kept lives, and its owners are the results that are kept of it and the region, if that
  still has it for its key. -/
  owners : ∀ (index : Nat) (k : Kept), h.kept[index]? = some (some k) →
    ∃ l, h.kept? index = some l ∧
      l.owners = h.kept.countP (·.any (·.item == k.item))
        + if h.read k.item.region k.key = some k then 1 else 0
  /-- No object outlives its owners. -/
  lives : ∀ item, (h.heap.find? item).isSome = true ↔
    (∃ k, some k ∈ h.kept ∧ k.item = item) ∨ ∃ key, h.cache.itemId? item.region key = some item

theorem Sound.readerLaw (hs : h.Sound) : h.ReaderLaw := by
  refine ⟨hs.value_kept?, fun region key k us hread => hs.read_after_iff hread us, ?_, ?_⟩
  · intro index k hindex
    have hk : some k ∈ h.kept := List.mem_of_getElem? hindex
    obtain ⟨l, hl⟩ := Option.isSome_iff_exists.mp (hs.lives (holders_pos_of_kept hk))
    have howners : l.owners = h.holders k.item := by
      rw [← hs.owners, Heap.owners, hl]
      rfl
    refine ⟨l, ?_, ?_⟩
    · unfold kept?
      rw [hindex]
      exact hl
    · rw [howners, holders, hs.count_itemIds hk]
  · intro item
    constructor
    · intro hlives
      have hpos : 0 < h.holders item := by
        rw [← hs.owners]
        refine Nat.pos_of_ne_zero fun hzero => ?_
        rw [hs.owned.find?_eq_none_iff.mpr hzero] at hlives
        cases hlives
      rcases Nat.add_pos_iff_pos_or_pos.mp hpos with hkept | hregion
      · obtain ⟨o, ho, hitem⟩ := List.countP_pos_iff.mp hkept
        cases o with
        | none => cases hitem
        | some k => exact Or.inl ⟨k, ho, eq_of_beq hitem⟩
      · exact Or.inr ((h.cache.mem_itemIds _ item).mp (List.count_pos_iff.mp hregion))
    · rintro (⟨k, hk, rfl⟩ | ⟨key, hkey⟩)
      · exact hs.lives (holders_pos_of_kept hk)
      · exact hs.lives (holders_pos_of_itemId? hkey)

/-- **What is read stays.**  Behind any use of new regions, a result that is kept never changes, two
reads find one object exactly if nothing took it between them, and the owners of an object are the
results that are kept of it and the region that has it. -/
theorem reader_law (names : List String) (us : List Use) : ((start names).after us).ReaderLaw :=
  ((sound_start names).after us).readerLaw

end CacheWarden.Holdings
