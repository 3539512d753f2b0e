import CacheWarden.Cache.Store
/-!
What work on one region leaves alone.

An operation on the entries of a region changes that region and no other, and it
changes no name and no registration.  A clear that fails changes nothing at all
(`clear_of_error`).
-/

namespace CacheWarden

/-! ### One region -/

namespace Region

@[simp] theorem name_put (r : Region) (key : Key) (value : Json.Value) :
    (r.put key value).name = r.name := by
  cases r <;> rfl

@[simp] theorem name_clearAll (r : Region) : r.clearAll.1.name = r.name := by
  cases r <;> rfl

/-- A region that could not be cleared is as it was. -/
theorem clearAll_of_error {r : Region} {e : CacheError} (h : r.clearAll.2 = .error e) :
    r.clearAll.1 = r := by
  cases r with
  | map m => simp [clearAll] at h
  | failing name size reason => rfl

end Region

/-! ### All regions -/

namespace Cache

variable (c : Cache)

/-- A put changes the region that it is about. -/
theorem region?_put_self (id : RegionId) (key : Key) (value : Json.Value) :
    (c.put id key value).region? id = (c.region? id).map (·.put key value) := by
  simp [put, region?]

/-- A put changes no other region. -/
theorem region?_put_of_ne {id other : RegionId} (h : other ≠ id) (key : Key)
    (value : Json.Value) : (c.put id key value).region? other = c.region? other := by
  simp [put, region?, Ne.symm h]

@[simp] theorem fill_nil (id : RegionId) : c.fill id [] = c := by
  show { c with regions := c.regions.modify id fun r => r } = c
  exact congrArg (Cache.mk · c.registry) (List.modify_id id c.regions)

/-- Values are put one after another. -/
theorem fill_cons (id : RegionId) (e : Key × Json.Value) (entries : List (Key × Json.Value)) :
    c.fill id (e :: entries) = (c.put id e.1 e.2).fill id entries := by
  show _ = { c with regions := (c.regions.modify id _).modify id _ }
  rw [List.modify_modify_eq]
  rfl

/-- A clear changes the region that it is about. -/
theorem region?_clearAll_self (id : RegionId) :
    (c.clearAll id).1.region? id = (c.region? id).map (·.clearAll.1) := by
  unfold clearAll
  rcases e : c.region? id with - | r
  · simp [e]
  · have hlt : id < c.regions.length := (List.getElem?_eq_some_iff.mp e).1
    simp [region?, hlt]

/-- A clear changes no other region. -/
theorem region?_clearAll_of_ne {id other : RegionId} (h : other ≠ id) :
    (c.clearAll id).1.region? other = c.region? other := by
  unfold clearAll
  rcases c.region? id with - | r
  · rfl
  · simp [region?, Ne.symm h]

/-- A clear tells what the region says. -/
theorem result_clearAll (id : RegionId) :
    (c.clearAll id).2 = ((c.region? id).map (·.clearAll.2)).getD (.ok 0) := by
  unfold clearAll
  rcases c.region? id with - | r <;> rfl

@[simp] theorem registry_clearAll (id : RegionId) : (c.clearAll id).1.registry = c.registry := by
  unfold clearAll
  rcases c.region? id with - | r <;> rfl

/-- A put changes no name. -/
@[simp] theorem nameOf_put (id : RegionId) (key : Key) (value : Json.Value) (other : RegionId) :
    (c.put id key value).nameOf other = c.nameOf other := by
  unfold nameOf
  by_cases h : other = id
  · rw [h, region?_put_self]
    rcases c.region? id with - | r <;> simp
  · rw [region?_put_of_ne c h]

/-- A clear changes no name. -/
@[simp] theorem nameOf_clearAll (id other : RegionId) :
    (c.clearAll id).1.nameOf other = c.nameOf other := by
  unfold nameOf
  by_cases h : other = id
  · rw [h, region?_clearAll_self]
    rcases c.region? id with - | r <;> simp
  · rw [region?_clearAll_of_ne c h]

/-- A clear by name is the clear of the region that has the name. -/
theorem clear_of_lookup {name : String} {id : RegionId} (h : c.lookup? name = some id) :
    c.clear name = c.clearAll id := by
  simp [clear, h]

/-- A clear that fails changes nothing. -/
theorem clearAll_of_error {id : RegionId} {e : CacheError} (h : (c.clearAll id).2 = .error e) :
    (c.clearAll id).1 = c := by
  unfold clearAll at h ⊢
  rcases hr : c.region? id with - | r
  · rfl
  · rw [hr] at h
    have hsame : r.clearAll.1 = r := Region.clearAll_of_error h
    have hset : c.regions.set id r = c.regions := by
      obtain ⟨hlt, hget⟩ := List.getElem?_eq_some_iff.mp hr
      rw [← hget, List.set_getElem_self]
    show { c with regions := c.regions.set id r.clearAll.1 } = c
    rw [hsame, hset]

/-- A clear by name that fails changes nothing. -/
theorem clear_of_error {name : String} {e : CacheError} (h : (c.clear name).2 = .error e) :
    (c.clear name).1 = c := by
  rcases hl : c.lookup? name with - | id
  · simp [clear, hl]
  · rw [clear_of_lookup c hl] at h ⊢
    exact clearAll_of_error c h

/-! ### Registrations -/

/-- A region whose name is held is refused. -/
theorem register_of_contains {id : RegionId} (h : c.contains (c.nameOf id) = true) :
    c.register id = (c, .error (.duplicateRegion (c.nameOf id)), []) := by
  simp [register, h]

/-- A region whose name is free is registered. -/
theorem register_of_free {id : RegionId} (h : c.contains (c.nameOf id) = false) :
    c.register id = ({ c with registry := Keyed.put (c.nameOf id) id c.registry }, .ok (),
      [.regionRegistered (c.nameOf id)]) := by
  simp [register, h]

end Cache

end CacheWarden
