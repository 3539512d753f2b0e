import CacheWarden.Meter
import Mathlib
/-!
The samples of a meter, and how recording changes them.

Recording counts on what one counter stands at, and no other (`count_add_self`,
`count_add_of_ne`).  Failures are counted by the region that they are about, so there
may be many samples of them: one for each region that was ever named
(`Meter.addEvictionFailure_regions`), and together they hold all failures
(`Meter.addEvictionFailure_sum`).
-/

namespace CacheWarden

namespace Meter

/-! ### Values under keys -/

section assign

variable {K V : Type} [BEq K] [LawfulBEq K]

/-- A key has the value that was put last. -/
theorem lookup_assign_self (key : K) (value : V) (es : List (K × V)) :
    (assign key value es).lookup key = some value := by
  induction es with
  | nil => simp [assign]
  | cons e es ih =>
    obtain ⟨k, v⟩ := e
    unfold assign
    by_cases h : k = key
    · simp [h]
    · have hne : (key == k) = false := by simpa using Ne.symm h
      simp [h, List.lookup_cons, hne, ih]

/-- Another key keeps its value. -/
theorem lookup_assign_of_ne {key other : K} (h : other ≠ key) (value : V) (es : List (K × V)) :
    (assign key value es).lookup other = es.lookup other := by
  have hother : (other == key) = false := by simpa using h
  induction es with
  | nil => simp [assign, List.lookup_cons, hother]
  | cons e es ih =>
    obtain ⟨k, v⟩ := e
    unfold assign
    by_cases hk : k = key
    · simp [hk, List.lookup_cons, hother]
    · simp [hk, List.lookup_cons, ih]

/-- A key that is new is put behind the others. -/
theorem keys_assign (key : K) (value : V) (es : List (K × V)) :
    (assign key value es).map Prod.fst
      = if key ∈ es.map Prod.fst then es.map Prod.fst else es.map Prod.fst ++ [key] := by
  induction es with
  | nil => simp [assign]
  | cons e es ih =>
    unfold assign
    by_cases he : e.1 = key
    · simp [he]
    · have hne : ¬ key = e.1 := Ne.symm he
      simp only [beq_iff_eq, he, if_false, List.map_cons, ih, List.mem_cons, hne, false_or]
      split <;> rfl

end assign

/-! ### Counters -/

/-- A counter that is counted on. -/
theorem count_add_self (m : Meter) (c : Counter) (n : UInt64) :
    (m.add c n).count c = m.count c + n := by
  unfold count add
  rw [lookup_assign_self]
  rfl

/-- No other counter moves. -/
theorem count_add_of_ne (m : Meter) {c other : Counter} (h : other ≠ c) (n : UInt64) :
    (m.add c n).count other = m.count other := by
  unfold count add
  rw [lookup_assign_of_ne h]

end Meter

/-! ### The samples of failures -/

/-- The region of a counter of failures. -/
def Counter.failedOn? : Counter → Option String
  | .evictionFailures region => some region
  | .evictions _ | .evictedItems _ | .deadLettered | .malformed => none

namespace Meter

/-- The samples of failures, by region. -/
def failed (m : Meter) : List (String × UInt64) :=
  m.counters.filterMap fun s => s.1.failedOn?.map (·, s.2)

/-- A counter of anything else leaves the samples of failures alone. -/
theorem failed_add_of_none (m : Meter) {c : Counter} (h : c.failedOn? = none) (n : UInt64) :
    (m.add c n).failed = m.failed := by
  show (assign c _ m.counters).filterMap _ = m.counters.filterMap _
  generalize m.count c + n = value
  induction m.counters with
  | nil => simp [assign, h]
  | cons s ss ih =>
    unfold assign
    by_cases hs : s.1 = c
    · simp [hs, h]
    · simp [hs, List.filterMap_cons, ih]

/-- A success counts as one eviction, with its entries, and leaves the samples of failures alone. -/
theorem addEviction_eq (m : Meter) (region : String) (items : UInt64) (finishedAt : Int) :
    (m.addEviction region items finishedAt).count (.evictions region)
        = m.count (.evictions region) + 1 ∧
      (m.addEviction region items finishedAt).count (.evictedItems region)
        = m.count (.evictedItems region) + items ∧
      (∀ other, (m.addEviction region items finishedAt).count (.evictionFailures other)
        = m.count (.evictionFailures other)) ∧
      (m.addEviction region items finishedAt).failed = m.failed := by
  refine ⟨?_, ?_, ?_, ?_⟩
  · show ((m.add _ 1).add _ items).count _ = _
    rw [count_add_of_ne _ (by simp), count_add_self]
  · show ((m.add _ 1).add _ items).count _ = _
    rw [count_add_self, count_add_of_ne _ (by simp)]
  · intro other
    show ((m.add _ 1).add _ items).count _ = _
    rw [count_add_of_ne _ (by simp), count_add_of_ne _ (by simp)]
  · show ((m.add _ 1).add _ items).failed = _
    rw [failed_add_of_none _ rfl, failed_add_of_none _ rfl]

/-- A failure makes a sample for its region, if there is none. -/
theorem addEvictionFailure_regions (m : Meter) (region : String) :
    (m.addEvictionFailure region).failed.map Prod.fst
      = if region ∈ m.failed.map Prod.fst then m.failed.map Prod.fst
        else m.failed.map Prod.fst ++ [region] := by
  -- the regions of the samples are those of the counters, in their order
  have hkeys (ss : List (Counter × UInt64)) :
      (ss.filterMap fun s => s.1.failedOn?.map (·, s.2)).map Prod.fst
        = (ss.map Prod.fst).filterMap Counter.failedOn? := by
    induction ss with
    | nil => rfl
    | cons s ss ih => rcases h : s.1.failedOn? with - | r <;> simp [h, ih]
  have hmem : Counter.evictionFailures region ∈ m.counters.map Prod.fst
      ↔ region ∈ (m.counters.map Prod.fst).filterMap Counter.failedOn? := by
    rw [List.mem_filterMap]
    constructor
    · intro h
      exact ⟨_, h, rfl⟩
    · rintro ⟨c, hc, hr⟩
      cases c with
      | evictionFailures r =>
        obtain rfl : r = region := by simpa [Counter.failedOn?] using hr
        exact hc
      | evictions _ | evictedItems _ | deadLettered | malformed => cases hr
  unfold failed
  rw [hkeys, hkeys]
  show ((assign _ _ m.counters).map Prod.fst).filterMap _ = _
  rw [keys_assign]
  by_cases h : Counter.evictionFailures region ∈ m.counters.map Prod.fst
  · rw [if_pos h, if_pos (hmem.mp h)]
  · rw [if_neg h, if_neg fun hr => h (hmem.mpr hr), List.filterMap_append]
    rfl

/-- A failure is counted once among all samples. -/
theorem addEvictionFailure_sum (m : Meter) (region : String) :
    ((m.addEvictionFailure region).failed.map Prod.snd).sum
      = (m.failed.map Prod.snd).sum + 1 := by
  show ((List.filterMap _ (assign _ (((m.counters.lookup _).getD 0) + 1) m.counters)).map _).sum = _
  unfold failed
  induction m.counters with
  | nil => simp [assign, Counter.failedOn?]
  | cons s ss ih =>
    obtain ⟨c, n⟩ := s
    unfold assign
    by_cases hs : c = .evictionFailures region
    · -- the region has a sample
      simp [hs, Counter.failedOn?, UInt64.add_assoc, UInt64.add_comm 1]
    · -- the sample of the region is behind this one, or to be made
      have hne : (Counter.evictionFailures region == c) = false := by simpa using Ne.symm hs
      rcases hr : c.failedOn? with - | r
      · simpa [hs, hr, List.lookup_cons, hne] using ih
      · simp [hs, hr, List.lookup_cons, hne, ih, UInt64.add_assoc]

end Meter

end CacheWarden
