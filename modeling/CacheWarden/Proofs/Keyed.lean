import CacheWarden.Keyed
import Mathlib
/-!
Values by name as a map.

Values that stand in the order of their names, each name once, are known by what the
names have (`ext_of_sorted`).  Putting values one after another gives such values, in
which every name has its last one (`latest_ofList`), and there are no others
(`Latest.eq_ofList`).
-/

namespace CacheWarden.Keyed

variable {α : Type}

/-- In the order of the names, each name once. -/
def Sorted (fields : List (String × α)) : Prop :=
  fields.Pairwise fun f g => f.1 < g.1

/-! ### Names -/

@[simp] theorem get?_nil (name : String) : get? name ([] : List (String × α)) = none := rfl

theorem get?_cons (name : String) (f : String × α) (rest : List (String × α)) :
    get? name (f :: rest) = if f.1 = name then some f.2 else get? name rest := by
  unfold get?
  by_cases h : f.1 = name <;> simp [h]

theorem get?_append (name : String) (xs ys : List (String × α)) :
    get? name (xs ++ ys) = (get? name xs).or (get? name ys) := by
  induction xs with
  | nil => rfl
  | cons f xs ih =>
    rw [List.cons_append, get?_cons, get?_cons, ih]
    split <;> rfl

/-- A name has a value exactly if it is the name of one. -/
theorem get?_eq_none_iff {name : String} {fields : List (String × α)} :
    get? name fields = none ↔ ∀ f ∈ fields, f.1 ≠ name := by
  simp [get?]

/-- A name in front of all names has no value. -/
theorem get?_eq_none_of_lt {name : String} {fields : List (String × α)}
    (h : ∀ f ∈ fields, name < f.1) : get? name fields = none :=
  get?_eq_none_iff.mpr fun f hf hname => lt_irrefl name (hname ▸ h f hf)

/-- Which value a name has does not hang on the order of values with distinct names. -/
theorem get?_reverse_of_sorted {fields : List (String × α)} (h : Sorted fields) (name : String) :
    get? name fields.reverse = get? name fields := by
  induction fields with
  | nil => rfl
  | cons f rest ih =>
    obtain ⟨hf, hrest⟩ := List.pairwise_cons.mp h
    rw [List.reverse_cons, get?_append, ih hrest, get?_cons, get?_cons]
    split
    · -- the first name is no name of the others
      rename_i hname
      rw [get?_eq_none_of_lt (hname ▸ hf)]
      rfl
    · simp

/-! ### Order -/

/-- Putting a value brings its name in, and no other. -/
theorem name_of_mem_put {name : String} {value : α} {fields : List (String × α)} {g : String × α}
    (h : g ∈ put name value fields) : g.1 = name ∨ ∃ f ∈ fields, f.1 = g.1 := by
  induction fields with
  | nil =>
    simp only [put, List.mem_singleton] at h
    exact .inl (by rw [h])
  | cons f rest ih =>
    unfold put at h
    split at h
    · rcases List.mem_cons.mp h with rfl | h
      · exact .inl rfl
      · exact .inr ⟨g, h, rfl⟩
    · split at h
      · rcases List.mem_cons.mp h with rfl | h
        · exact .inr ⟨g, List.mem_cons_self, rfl⟩
        · rcases ih h with h | ⟨k, hk, hk'⟩
          · exact .inl h
          · exact .inr ⟨k, List.mem_cons_of_mem _ hk, hk'⟩
      · rcases List.mem_cons.mp h with rfl | h
        · exact .inl rfl
        · exact .inr ⟨g, List.mem_cons_of_mem _ h, rfl⟩

/-- Putting a value keeps the order. -/
theorem Sorted.put {fields : List (String × α)} (h : Sorted fields) (name : String) (value : α) :
    Sorted (put name value fields) := by
  induction fields with
  | nil => exact List.pairwise_singleton _ _
  | cons f rest ih =>
    obtain ⟨hf, hrest⟩ := List.pairwise_cons.mp h
    unfold Keyed.put
    split
    · -- in front of all
      rename_i hlt
      refine List.pairwise_cons.mpr ⟨?_, h⟩
      intro g hg
      rcases List.mem_cons.mp hg with rfl | hg
      · exact hlt
      · exact lt_trans hlt (hf g hg)
    · split
      · -- further behind
        rename_i hlt
        refine List.pairwise_cons.mpr ⟨?_, ih hrest⟩
        intro g hg
        rcases name_of_mem_put hg with hname | ⟨k, hk, hk'⟩
        · rw [hname]
          exact hlt
        · rw [← hk']
          exact hf k hk
      · -- over the value of that name
        rename_i hle hge
        have hname : f.1 = name := le_antisymm (not_lt.mp hle) (not_lt.mp hge)
        refine List.pairwise_cons.mpr ⟨?_, hrest⟩
        intro g hg
        rw [← hname]
        exact hf g hg

/-- Values in order are known by what the names have. -/
theorem ext_of_sorted {xs ys : List (String × α)} (hx : Sorted xs) (hy : Sorted ys)
    (h : ∀ name, get? name xs = get? name ys) : xs = ys := by
  induction xs generalizing ys with
  | nil =>
    cases ys with
    | nil => rfl
    | cons g ys =>
      have hg := h g.1
      rw [get?_cons, if_pos rfl] at hg
      cases hg
  | cons f xs ih =>
    obtain ⟨hf, hxs⟩ := List.pairwise_cons.mp hx
    cases ys with
    | nil =>
      have hf' := h f.1
      rw [get?_cons, if_pos rfl] at hf'
      cases hf'
    | cons g ys =>
      obtain ⟨hg, hys⟩ := List.pairwise_cons.mp hy
      -- a name in front of all others of one side is in front of all others of the other side
      have hfirst {u v : String × α} {us vs : List (String × α)} (hv : ∀ k ∈ vs, v.1 < k.1)
          (hu : ∀ name, get? name (u :: us) = get? name (v :: vs)) : v.1 ≤ u.1 := by
        have hname := hu u.1
        rw [get?_cons, if_pos rfl, get?_cons] at hname
        split at hname
        · exact le_of_eq ‹_›
        · by_contra hlt
          rw [get?_eq_none_of_lt fun k hk => lt_trans (not_le.mp hlt) (hv k hk)] at hname
          cases hname
      have hname : f.1 = g.1 := le_antisymm (hfirst hf fun name => (h name).symm) (hfirst hg h)
      have hvalue : f.2 = g.2 := by
        have hf' := h f.1
        rw [get?_cons, if_pos rfl, get?_cons, if_pos hname.symm] at hf'
        exact Option.some.inj hf'
      have hrest : xs = ys := by
        apply ih hxs hys
        intro name
        by_cases hn : f.1 = name
        · rw [get?_eq_none_of_lt (hn ▸ hf), get?_eq_none_of_lt (hn ▸ hname ▸ hg)]
        · have hname' := h name
          rw [get?_cons, if_neg hn, get?_cons, if_neg (hname ▸ hn)] at hname'
          exact hname'
      rw [hrest, Prod.ext hname hvalue]

/-! ### Values put one after another -/

/-- The values by name that come of values put one after another: each name once, with the last of
its values. -/
structure Latest (fields result : List (String × α)) : Prop where
  sorted : Sorted result
  last : ∀ name, get? name result = get? name fields.reverse

/-- Of values put one after another the last of each name is left. -/
theorem latest_ofList (fields : List (String × α)) : Latest fields (ofList fields) := by
  induction fields using List.reverseRecOn with
  | nil => exact ⟨List.Pairwise.nil, fun _ => rfl⟩
  | append_singleton fields f ih =>
    have hput : ofList (fields ++ [f]) = put f.1 f.2 (ofList fields) := by
      simp [ofList, List.foldl_append]
    rw [hput]
    refine ⟨ih.sorted.put f.1 f.2, ?_⟩
    intro name
    rw [List.reverse_append, List.reverse_singleton, List.singleton_append, get?_cons]
    split
    · rename_i h
      rw [h, get?_put_self]
    · rename_i h
      rw [get?_put_of_ne (Ne.symm h), ih.last]

namespace Latest

variable {fields result : List (String × α)}

/-- Nothing else is left. -/
theorem eq_ofList (h : Latest fields result) : result = ofList fields :=
  ext_of_sorted h.sorted (latest_ofList fields).sorted fun name => by
    rw [h.last, (latest_ofList fields).last]

/-- Values that stand in order already are what is left of them. -/
theorem of_sorted (h : Sorted fields) : Latest fields fields :=
  ⟨h, fun name => (get?_reverse_of_sorted h name).symm⟩

/-- What is left was put. -/
theorem mem (h : Latest fields result) {f : String × α} (hf : f ∈ result) : f ∈ fields := by
  have hget : get? f.1 result = some f.2 := by
    obtain ⟨front, behind, rfl⟩ := List.append_of_mem hf
    have hfront : get? f.1 front = none := get?_eq_none_iff.mpr fun g hg hg' => by
      have hlt := (List.pairwise_append.mp h.sorted).2.2 g hg f List.mem_cons_self
      rw [hg'] at hlt
      exact lt_irrefl f.1 hlt
    rw [get?_append, hfront, get?_cons, if_pos rfl]
    rfl
  rw [h.last] at hget
  unfold get? at hget
  obtain ⟨g, hg, hvalue⟩ := Option.map_eq_some_iff.mp hget
  have hname : g.1 = f.1 := by simpa using List.find?_some hg
  rw [← Prod.ext hname hvalue]
  exact List.mem_reverse.mp (List.mem_of_find?_eq_some hg)

end Latest

end CacheWarden.Keyed
