import CacheWarden.Proofs.Cache.Registration
import CacheWarden.Proofs.Keyed
import CacheWarden.Proofs.Text.ByteOrder
/-!
The registry as a whole.

A registry that has grown from an empty one holds each region under its own name, and
each name leads to the first region that was offered under it (`Registered`).  The
names are in order (`sorted_after`), so they are told each once; and what the four
questions about a name say is the same (`questions_agree`).

`registry_law` is about any regions, also of equal or empty names, and any operations.
-/

namespace CacheWarden.Cache

/-- Regions of which none is registered. -/
def unregistered (regions : List Region) : Cache := ⟨regions, []⟩

/-! ### Names -/

/-- A name that leads to a region is the region's own. -/
theorem nameOf_claimed {c : Cache} {name : String} {op : Operation} {id : RegionId}
    (h : c.claimed? name op = some id) : c.nameOf id = name := by
  cases op with
  | register i =>
    obtain ⟨hname, hid⟩ : c.nameOf i = name ∧ i = id := by simpa [claimed?] using h
    rw [← hid]
    exact hname
  | put _ _ _ | get _ _ | size _ | clearAll _ | clear _ | lookup _ | contains _ | names => cases h

theorem nameOf_after (c : Cache) (ops : List Operation) (id : RegionId) :
    (c.after ops).nameOf id = c.nameOf id := by
  induction ops generalizing c with
  | nil => rfl
  | cons op ops ih => exact (ih _).trans (nameOf_perform c op id)

theorem after_append (c : Cache) (ops more : List Operation) :
    c.after (ops ++ more) = (c.after ops).after more := by
  simp [after, List.foldl_append]

/-! ### Order -/

/-- A registry in order stays so. -/
theorem sorted_perform {c : Cache} (h : Keyed.Sorted c.registry) (op : Operation) :
    Keyed.Sorted (c.perform op).1.registry := by
  cases op with
  | register id =>
    show Keyed.Sorted (c.register id).1.registry
    rcases hc : c.contains (c.nameOf id) with - | -
    · rw [register_of_free c hc]
      exact h.put (c.nameOf id) id
    · rw [register_of_contains c hc]
      exact h
  | clearAll id =>
    show Keyed.Sorted (c.clearAll id).1.registry
    rw [registry_clearAll]
    exact h
  | clear name =>
    show Keyed.Sorted (c.clear name).1.registry
    unfold clear
    rcases c.lookup? name with - | id
    · exact h
    · rw [registry_clearAll]
      exact h
  | put _ _ _ | get _ _ | size _ | lookup _ | contains _ | names => exact h

theorem sorted_after {c : Cache} (h : Keyed.Sorted c.registry) (ops : List Operation) :
    Keyed.Sorted (c.after ops).registry := by
  induction ops generalizing c with
  | nil => exact h
  | cons op ops ih => exact ih (sorted_perform h op)

/-- The names of a registry in order come one after the other as their bytes do. -/
theorem pairwise_names {c : Cache} (h : Keyed.Sorted c.registry) :
    c.names.Pairwise Text.InByteOrder := by
  apply List.pairwise_map.mpr
  exact h.imp Text.inByteOrder_iff.mpr

/-! ### Questions about a name -/

/-- A name that leads nowhere is none of those told. -/
theorem mem_names_iff {c : Cache} {name : String} :
    name ∈ c.names ↔ (c.lookup? name).isSome = true := by
  unfold names lookup?
  rw [← Option.ne_none_iff_isSome, ne_eq, Keyed.get?_eq_none_iff]
  simp

/-- A region that is cleared does not say that it is unknown. -/
theorem clear_known {c : Cache} {name : String} {id : RegionId} (h : c.lookup? name = some id) :
    (c.clear name).2 ≠ .error (.unknownRegion name) := by
  rw [clear_of_lookup c h, result_clearAll]
  rcases c.region? id with - | (r | ⟨own, size, reason⟩) <;> exact nofun

/-- To be contained, to lead to a region, to be told among the names, and not to be unknown to a
clear are the same. -/
theorem questions_agree (c : Cache) (name : String) :
    [c.contains name = true, (c.lookup? name).isSome = true, name ∈ c.names,
      (c.clear name).2 ≠ .error (.unknownRegion name)].TFAE := by
  tfae_have 1 ↔ 2 := Iff.rfl
  tfae_have 3 ↔ 2 := mem_names_iff
  tfae_have 2 → 4 := by
    intro h
    obtain ⟨id, hid⟩ := Option.isSome_iff_exists.mp h
    exact clear_known hid
  tfae_have 4 → 2 := by
    intro h
    rcases hl : c.lookup? name with - | id
    · exact absurd (by simp [clear, hl]) h
    · rfl
  tfae_finish

/-! ### The law -/

/-- What holds of a registry behind some operations on the regions of a cache and on their
registry, which was empty. -/
structure Registered (start : Cache) (ops : List Operation) (c : Cache) : Prop where
  /-- A region is held under its own name. -/
  own : ∀ name id, c.lookup? name = some id → c.nameOf id = name
  /-- A name leads to the first region that was offered under it, if there was one. -/
  first : ∀ name, c.lookup? name = ops.findSome? (start.claimed? name)
  /-- It leads there for good. -/
  lasting : ∀ name id, c.lookup? name = some id → ∀ more, (c.after more).lookup? name = some id
  /-- A region is refused exactly if its name is held. -/
  refused : ∀ id, (c.register id).2.1 = .error (.duplicateRegion (c.nameOf id)) ↔
    c.contains (c.nameOf id) = true
  /-- A region that is refused changes nothing, and nothing is told of it. -/
  unchanged : ∀ id, c.contains (c.nameOf id) = true →
    (c.register id).1 = c ∧ (c.register id).2.2 = []
  /-- Any other is registered, and told of: its own name leads to it, and all other names lead where
  they led. -/
  added : ∀ id, c.contains (c.nameOf id) = false →
    (c.register id).2 = (.ok (), [.regionRegistered (c.nameOf id)]) ∧
      (c.register id).1.regions = c.regions ∧
      ∀ name, (c.register id).1.lookup? name
        = if name = c.nameOf id then some id else c.lookup? name
  /-- The names are told in the order of their bytes, each once. -/
  ordered : c.names.Pairwise Text.InByteOrder
  /-- All questions about a name are answered alike. -/
  questions : ∀ name, [c.contains name = true, (c.lookup? name).isSome = true, name ∈ c.names,
    (c.clear name).2 ≠ .error (.unknownRegion name)].TFAE

/-- A region whose name is free is the one that the name leads to then, and no other name is
touched. -/
theorem lookup?_register_free {c : Cache} {id : RegionId} (h : c.contains (c.nameOf id) = false)
    (name : String) :
    (c.register id).1.lookup? name = if name = c.nameOf id then some id else c.lookup? name := by
  rw [lookup?_register]
  by_cases hname : name = c.nameOf id
  · have hfree : c.lookup? name = none := by
      rw [hname]
      simpa [contains] using h
    rw [if_pos hname, if_pos hname.symm, hfree]
    rfl
  · rw [if_neg hname, if_neg (Ne.symm hname), Option.or_none]

/-- **The registry.**  However many regions of whatever names are offered, and whatever else is done
to them and to the registry meanwhile: each region is held under its own name, the first one of a
name for good; further ones are refused without a trace; and what is told of a name is always the
same, whoever asks. -/
theorem registry_law (regions : List Region) (ops : List Operation) :
    Registered (unregistered regions) ops ((unregistered regions).after ops) := by
  have hfirst (name : String) : ((unregistered regions).after ops).lookup? name
      = ops.findSome? ((unregistered regions).claimed? name) := by
    rw [lookup?_after]
    rfl
  have hempty : Keyed.Sorted (unregistered regions).registry := List.Pairwise.nil
  have hsorted := sorted_after hempty ops
  generalize hc : (unregistered regions).after ops = c at hfirst hsorted ⊢
  refine ⟨?_, hfirst, ?_, ?_, ?_, ?_, pairwise_names hsorted, questions_agree c⟩
  · intro name id hid
    rw [hfirst] at hid
    obtain ⟨op, -, hop⟩ := List.exists_of_findSome?_eq_some hid
    rw [← hc, nameOf_after]
    exact nameOf_claimed hop
  · intro name id hid more
    rw [lookup?_after, hid, Option.some_or]
  · intro id
    rcases hheld : c.contains (c.nameOf id) with - | -
    · simp [register_of_free c hheld]
    · simp [register_of_contains c hheld]
  · intro id hheld
    rw [register_of_contains c hheld]
    exact ⟨rfl, rfl⟩
  · intro id hfree
    refine ⟨?_, regions_register c id, lookup?_register_free hfree⟩
    rw [register_of_free c hfree]

end CacheWarden.Cache
