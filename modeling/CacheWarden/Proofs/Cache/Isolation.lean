import CacheWarden.Proofs.Cache.Operation
/-!
Regions do not interfere.

Whoever works with one region sees the same answers, and leaves the same entries
behind, whether or not anybody works with the entries of the others meanwhile
(`isolation`).  Registrations are everybody's: they decide where a name leads to, so
they stay.

Two runs are compared by what they agree on (`Agree`): the registry, every region's
name, and the one region in full.  An operation on the entries of another region
keeps a cache in agreement with itself (`agree_perform_other`); any operation that
stays takes caches that agree to caches that agree (`Agree.perform`).
-/

namespace CacheWarden.Cache

/-! ### Agreement -/

/-- Two caches with one registry and the same names, and the same region of a number. -/
structure Agree (id : RegionId) (c d : Cache) : Prop where
  registry : c.registry = d.registry
  names : ∀ i, c.nameOf i = d.nameOf i
  region : c.region? id = d.region? id

namespace Agree

variable {id : RegionId} {c d : Cache}

theorem refl (id : RegionId) (c : Cache) : Agree id c c := ⟨rfl, fun _ => rfl, rfl⟩

theorem trans {e : Cache} (h : Agree id c d) (h' : Agree id d e) : Agree id c e :=
  ⟨h.registry.trans h'.registry, fun i => (h.names i).trans (h'.names i),
    h.region.trans h'.region⟩

/-- A name leads to the same region. -/
theorem lookup? (h : Agree id c d) (name : String) : c.lookup? name = d.lookup? name := by
  unfold Cache.lookup?
  rw [h.registry]

theorem contains (h : Agree id c d) (name : String) : c.contains name = d.contains name := by
  unfold Cache.contains
  rw [h.lookup? name]

/-- The same operations are addressed to the region. -/
theorem addresses (h : Agree id c d) (op : Operation) :
    c.addresses id op = d.addresses id op := by
  cases op <;> simp [Cache.addresses, h.lookup?]

/-! ### Operations that stay -/

theorem put (h : Agree id c d) (key : Key) (value : Json.Value) :
    Agree id (c.put id key value) (d.put id key value) := by
  refine ⟨h.registry, ?_, ?_⟩
  · intro i
    rw [nameOf_put, nameOf_put, h.names i]
  · rw [region?_put_self, region?_put_self, h.region]

theorem clearAll (h : Agree id c d) : Agree id (c.clearAll id).1 (d.clearAll id).1 := by
  refine ⟨?_, ?_, ?_⟩
  · rw [registry_clearAll, registry_clearAll, h.registry]
  · intro i
    rw [nameOf_clearAll, nameOf_clearAll, h.names i]
  · rw [region?_clearAll_self, region?_clearAll_self, h.region]

/-- A registration is taken or refused on both sides. -/
theorem register (h : Agree id c d) (i : RegionId) :
    Agree id (c.register i).1 (d.register i).1 ∧ (c.register i).2 = (d.register i).2 := by
  have hname : c.nameOf i = d.nameOf i := h.names i
  have hheld : c.contains (c.nameOf i) = d.contains (d.nameOf i) := by
    rw [hname, h.contains]
  rcases hc : d.contains (d.nameOf i) with - | -
  · rw [register_of_free c (hheld.trans hc), register_of_free d hc, hname]
    exact ⟨⟨by rw [h.registry], h.names, h.region⟩, rfl⟩
  · rw [register_of_contains c (hheld.trans hc), register_of_contains d hc, hname]
    exact ⟨h, rfl⟩

/-- The caches still agree behind an operation that is addressed to the region or leaves all
entries alone. -/
theorem perform (h : Agree id c d) {op : Operation}
    (hop : op.isOnEntries = false ∨ c.addresses id op = true) :
    Agree id (c.perform op).1 (d.perform op).1 := by
  cases op with
  | register i => exact (h.register i).1
  | put i key value =>
    obtain rfl : i = id := by simpa [Operation.isOnEntries, Cache.addresses] using hop
    exact h.put key value
  | clearAll i =>
    obtain rfl : i = id := by simpa [Operation.isOnEntries, Cache.addresses] using hop
    exact h.clearAll
  | clear name =>
    have hc : c.lookup? name = some id := by
      simpa [Operation.isOnEntries, Cache.addresses] using hop
    have hd : d.lookup? name = some id := by rw [← h.lookup? name, hc]
    show Agree id (c.clear name).1 (d.clear name).1
    rw [clear_of_lookup c hc, clear_of_lookup d hd]
    exact h.clearAll
  | get _ _ | size _ | lookup _ | contains _ | names => exact h

/-- An operation that is addressed to the region answers the same on both sides. -/
theorem response (h : Agree id c d) {op : Operation} (hop : c.addresses id op = true) :
    (c.perform op).2 = (d.perform op).2 := by
  have hclear : (c.clearAll id).2 = (d.clearAll id).2 := by
    rw [result_clearAll, result_clearAll, h.region]
  cases op with
  | register i =>
    show Response.ofResult _ (c.register i).2.1 = Response.ofResult _ (d.register i).2.1
    rw [(h.register i).2]
  | put i key value => rfl
  | get i key =>
    obtain rfl : i = id := by simpa [Cache.addresses] using hop
    show Response.value (c.get? i key) = Response.value (d.get? i key)
    rw [Cache.get?, Cache.get?, h.region]
  | size i =>
    obtain rfl : i = id := by simpa [Cache.addresses] using hop
    show Response.number (c.sizeOf i) = Response.number (d.sizeOf i)
    rw [Cache.sizeOf, Cache.sizeOf, h.region]
  | clearAll i =>
    obtain rfl : i = id := by simpa [Cache.addresses] using hop
    show Response.ofResult _ (c.clearAll i).2 = Response.ofResult _ (d.clearAll i).2
    rw [hclear]
  | clear name =>
    have hc : c.lookup? name = some id := by simpa [Cache.addresses] using hop
    have hd : d.lookup? name = some id := by rw [← h.lookup? name, hc]
    show Response.ofResult _ (c.clear name).2 = Response.ofResult _ (d.clear name).2
    rw [clear_of_lookup c hc, clear_of_lookup d hd, hclear]
  | lookup name =>
    show Response.region (c.lookup? name) = Response.region (d.lookup? name)
    rw [h.lookup? name]
  | contains name =>
    show Response.flag (c.contains name) = Response.flag (d.contains name)
    rw [h.contains name]
  | names => simp [Cache.addresses] at hop

end Agree

/-! ### Operations that go -/

theorem agree_clearAll_other {id i : RegionId} (h : id ≠ i) (c : Cache) :
    Agree id (c.clearAll i).1 c :=
  ⟨registry_clearAll c i, nameOf_clearAll c i, region?_clearAll_of_ne c h⟩

/-- An operation on the entries of another region leaves this one, all names and the registry
alone. -/
theorem agree_perform_other {id : RegionId} {c : Cache} {op : Operation}
    (hon : op.isOnEntries = true) (hop : c.addresses id op = false) :
    Agree id (c.perform op).1 c := by
  cases op with
  | put i key value =>
    have hne : id ≠ i := fun e => by simp [addresses, e] at hop
    exact ⟨rfl, nameOf_put c i key value, region?_put_of_ne c hne key value⟩
  | clearAll i =>
    have hne : id ≠ i := fun e => by simp [addresses, e] at hop
    exact agree_clearAll_other hne c
  | clear name =>
    show Agree id (c.clear name).1 c
    rcases hl : c.lookup? name with - | i
    · simpa [clear, hl] using Agree.refl id c
    · have hne : id ≠ i := fun e => by simp [addresses, hl, e] at hop
      rw [clear_of_lookup c hl]
      exact agree_clearAll_other hne c
  | get _ _ | size _ => exact Agree.refl id c
  | register _ | lookup _ | contains _ | names => simp [Operation.isOnEntries] at hon

/-! ### Runs -/

/-- Behind the purged operations a region is what it is behind all, and the operations addressed to
it have answered the same; from any two caches that agree on it. -/
theorem Agree.purged {id : RegionId} (ops : List Operation) {c d : Cache} (h : Agree id c d) :
    observed id d (purged id c ops) = observed id c ops ∧
      Agree id (c.after ops) (d.after (purged id c ops)) := by
  induction ops generalizing c d with
  | nil => exact ⟨rfl, h⟩
  | cons op ops ih =>
    rcases hgo : op.isOnEntries && !c.addresses id op with - | -
    · -- the operation stays
      have hstay : op.isOnEntries = false ∨ c.addresses id op = true := by
        rcases ho : op.isOnEntries with - | -
        · exact Or.inl rfl
        · rw [ho] at hgo
          exact Or.inr (by simpa using hgo)
      obtain ⟨hseen, hafter⟩ := ih (h.perform hstay)
      have hpurged : Cache.purged id c (op :: ops)
          = op :: Cache.purged id (c.perform op).1 ops := by
        simp [Cache.purged, hgo]
      rw [hpurged]
      refine ⟨?_, hafter⟩
      rcases ha : c.addresses id op with - | -
      · have hd : d.addresses id op = false := by rw [← h.addresses op, ha]
        simp only [observed, ha, hd]
        exact hseen
      · have hd : d.addresses id op = true := by rw [← h.addresses op, ha]
        simp only [observed, ha, hd, if_true]
        rw [hseen, h.response ha]
    · -- the operation goes
      obtain ⟨hon, hother⟩ : op.isOnEntries = true ∧ c.addresses id op = false := by
        simpa using hgo
      obtain ⟨hseen, hafter⟩ := ih ((agree_perform_other hon hother).trans h)
      have hpurged : Cache.purged id c (op :: ops) = Cache.purged id (c.perform op).1 ops := by
        simp [Cache.purged, hgo]
      rw [hpurged]
      refine ⟨?_, hafter⟩
      rw [hseen]
      simp [observed, hother]

/-- **Isolation.**  For any cache, any operations and any region: without the operations on the
entries of other regions, those addressed to the region answer the same and leave it the same.
And a clear by name that fails leaves all regions and all registrations as they are. -/
theorem isolation (c : Cache) (ops : List Operation) (id : RegionId) :
    observed id c (purged id c ops) = observed id c ops ∧
      (c.after (purged id c ops)).region? id = (c.after ops).region? id ∧
      ∀ name e, ((c.after ops).clear name).2 = .error e →
        ((c.after ops).clear name).1 = c.after ops := by
  obtain ⟨hseen, hafter⟩ := (Agree.refl id c).purged ops
  refine ⟨hseen, hafter.region.symm, ?_⟩
  intro name e he
  exact clear_of_error _ he

end CacheWarden.Cache
