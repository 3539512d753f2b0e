import CacheWarden.Proofs.Cache.Operation
/-!
Registrations are for good.

A name leads to the first region that was registered under it, whatever is done to
the regions and the registry from then on (`lookup?_after`): a second region of the
name is refused, and nothing takes a registration back.  No operation changes the
name of a region, nor makes a region of values into one of another kind.

So what is checked once about a registration is true ever after.
-/

namespace CacheWarden.Cache

/-! ### What no operation changes -/

@[simp] theorem after_nil (c : Cache) : c.after [] = c := rfl

@[simp] theorem after_cons (c : Cache) (op : Operation) (ops : List Operation) :
    c.after (op :: ops) = (c.perform op).1.after ops := rfl

/-- A clear by name changes no name. -/
@[simp] theorem nameOf_clear (c : Cache) (name : String) (id : RegionId) :
    (c.clear name).1.nameOf id = c.nameOf id := by
  unfold clear
  rcases c.lookup? name with - | i
  · rfl
  · exact nameOf_clearAll c i id

/-- A registration, taken or refused, leaves all regions alone. -/
@[simp] theorem regions_register (c : Cache) (id : RegionId) :
    (c.register id).1.regions = c.regions := by
  rcases h : c.contains (c.nameOf id) with - | -
  · rw [register_of_free c h]
  · rw [register_of_contains c h]

/-- A region keeps its name. -/
theorem nameOf_perform (c : Cache) (op : Operation) (id : RegionId) :
    (c.perform op).1.nameOf id = c.nameOf id := by
  cases op with
  | register i =>
    show (c.register i).1.nameOf id = c.nameOf id
    simp [nameOf, region?]
  | put i key value => exact nameOf_put c i key value id
  | clearAll i => exact nameOf_clearAll c i id
  | clear name => exact nameOf_clear c name id
  | get _ _ | size _ | lookup _ | contains _ | names => rfl

/-- The region of a number holds values by key. -/
def HoldsValues (c : Cache) (id : RegionId) : Prop := ∃ r, c.region? id = some (.map r)

/-- A clear through a handle leaves a region of values one. -/
theorem HoldsValues.clearAll {c : Cache} {id : RegionId} (h : c.HoldsValues id) (i : RegionId) :
    (c.clearAll i).1.HoldsValues id := by
  obtain ⟨r, hr⟩ := h
  by_cases hi : id = i
  · subst hi
    exact ⟨r.clearAll.1, by rw [region?_clearAll_self, hr]; rfl⟩
  · exact ⟨r, by rw [region?_clearAll_of_ne c hi, hr]⟩

/-- A region of values stays one. -/
theorem HoldsValues.perform {c : Cache} {id : RegionId} (h : c.HoldsValues id) (op : Operation) :
    (c.perform op).1.HoldsValues id := by
  cases op with
  | register i =>
    obtain ⟨r, hr⟩ := h
    have hsame : (c.register i).1.region? id = c.region? id := by
      unfold region?
      rw [regions_register]
    exact ⟨r, hsame.trans hr⟩
  | put i key value =>
    obtain ⟨r, hr⟩ := h
    by_cases hi : id = i
    · subst hi
      refine ⟨r.put key value, ?_⟩
      show (c.put id key value).region? id = _
      rw [region?_put_self, hr]
      rfl
    · refine ⟨r, ?_⟩
      show (c.put i key value).region? id = _
      rw [region?_put_of_ne c hi, hr]
  | clearAll i => exact h.clearAll i
  | clear name =>
    show (c.clear name).1.HoldsValues id
    unfold clear
    rcases c.lookup? name with - | i
    · exact h
    · exact h.clearAll i
  | get _ _ | size _ | lookup _ | contains _ | names => exact h

theorem HoldsValues.after {c : Cache} {id : RegionId} (h : c.HoldsValues id)
    (ops : List Operation) : (c.after ops).HoldsValues id := by
  induction ops generalizing c with
  | nil => exact h
  | cons op ops ih => exact ih (h.perform op)

/-! ### Where a name leads -/

/-- The region that an operation asks to be registered under a name. -/
def claimed? (c : Cache) (name : String) : Operation → Option RegionId
  | .register id => if c.nameOf id = name then some id else none
  | _ => none

/-- A claim depends on the names of the regions alone. -/
theorem claimed?_perform (c : Cache) (op : Operation) (name : String) :
    (c.perform op).1.claimed? name = c.claimed? name := by
  funext other
  unfold claimed?
  simp [nameOf_perform]

/-- A registration is taken if its name is free, and changes nothing under any other name. -/
theorem lookup?_register (c : Cache) (id : RegionId) (name : String) :
    (c.register id).1.lookup? name
      = (c.lookup? name).or (if c.nameOf id = name then some id else none) := by
  by_cases hname : c.nameOf id = name
  · -- it is the name that the region asks for: held by another, or free
    subst hname
    rw [if_pos rfl]
    rcases hl : c.lookup? (c.nameOf id) with - | held
    · have hfree : c.contains (c.nameOf id) = false := by simp [contains, hl]
      rw [register_of_free c hfree]
      exact Keyed.get?_put_self ..
    · have hheld : c.contains (c.nameOf id) = true := by simp [contains, hl]
      rw [register_of_contains c hheld]
      simpa using hl
  · rw [if_neg hname, Option.or_none]
    rcases hc : c.contains (c.nameOf id) with - | -
    · rw [register_of_free c hc]
      exact Keyed.get?_put_of_ne (Ne.symm hname) ..
    · rw [register_of_contains c hc]

/-- A name that leads to a region leads to it still; a free one is claimed, or stays free. -/
theorem lookup?_perform (c : Cache) (op : Operation) (name : String) :
    (c.perform op).1.lookup? name = (c.lookup? name).or (c.claimed? name op) := by
  -- only a registration is a claim, and all else leaves the registry as it is
  have hkept {d : Cache} (h : d.registry = c.registry) :
      d.lookup? name = (c.lookup? name).or none := by
    rw [Option.or_none]
    unfold lookup?
    rw [h]
  cases op with
  | register id => exact lookup?_register c id name
  | clearAll i => exact hkept (registry_clearAll c i)
  | clear other =>
    apply hkept
    show (c.clear other).1.registry = c.registry
    unfold clear
    rcases c.lookup? other with - | i
    · rfl
    · exact registry_clearAll c i
  | put _ _ _ | get _ _ | size _ | lookup _ | contains _ | names => exact hkept rfl

/-- Behind any operations, a name leads where it led before; or, if it led nowhere, to the first
region that was registered under it. -/
theorem lookup?_after (c : Cache) (ops : List Operation) (name : String) :
    (c.after ops).lookup? name = (c.lookup? name).or (ops.findSome? (c.claimed? name)) := by
  induction ops generalizing c with
  | nil => simp
  | cons op ops ih =>
    -- names are kept, so what the rest of the operations claim can be said of the first cache
    rw [after_cons, ih, lookup?_perform, claimed?_perform, Option.or_assoc, List.findSome?_cons]
    rcases c.claimed? name op with - | id <;> rfl

end CacheWarden.Cache
