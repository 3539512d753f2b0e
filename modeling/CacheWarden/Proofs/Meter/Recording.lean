import CacheWarden.Proofs.Decimal.Shortest
import CacheWarden.Proofs.Eviction.Samples
import CacheWarden.Proofs.Meter.Series
import Mathlib
/-!
What the samples tell of all that was recorded.

A meter keeps values under keys, each key once.  What such a list holds is a function
of the keys (`Holds`), and two lists that hold the same differ in their order only
(`Holds.perm`).  A counter's value comes of the increments of that counter alone
(`holds_counters`), the instant of a region of the last clear of that region alone
(`holds_finished`).  So samples of different regions never mix, and of the order in which
things are recorded only the order of the clears of each region counts (`apart`).

An instant is kept as a double, and beyond 53 bits the double may be another integer
(`finished_rounded`).
-/

namespace CacheWarden.Meter

open Decimal Text

/-! ### Values by key -/

section Holds

variable {K V : Type} [BEq K] [LawfulBEq K]

/-- Each key once, with its value. -/
structure Holds (es : List (K × V)) (f : K → Option V) : Prop where
  nodup : (es.map Prod.fst).Nodup
  lookup : ∀ key, es.lookup key = f key

namespace Holds

variable {es es' : List (K × V)} {f : K → Option V}

/-- A value that is put is held, and all other keys keep theirs. -/
theorem assign [DecidableEq K] (h : Holds es f) (key : K) (value : V) :
    Holds (assign key value es) (Function.update f key (some value)) := by
  refine ⟨?_, ?_⟩
  · rw [keys_assign]
    split
    · exact h.nodup
    · rename_i hnew
      exact h.nodup.append (List.nodup_singleton key) (by simpa using hnew)
  · intro other
    by_cases hkey : other = key
    · rw [hkey, Function.update_self, lookup_assign_self]
    · rw [Function.update_of_ne hkey, lookup_assign_of_ne hkey, h.lookup]

/-- What is held stands in the list, and nothing else does. -/
theorem mem_iff (h : Holds es f) {key : K} {value : V} :
    (key, value) ∈ es ↔ f key = some value := by
  rw [← h.lookup, List.lookup_eq_some_iff]
  constructor
  · intro hmem
    obtain ⟨front, rest, rfl⟩ := List.append_of_mem hmem
    refine ⟨front, rest, rfl, ?_⟩
    -- the key is not in front of the value as well
    have hnodup := h.nodup
    rw [List.map_append, List.nodup_append] at hnodup
    intro e he
    have hne := hnodup.2.2 e.1 (List.mem_map_of_mem he) key (by simp)
    simpa using Ne.symm hne
  · rintro ⟨front, rest, rfl, -⟩
    simp

/-- The keys of what is held. -/
theorem mem_keys_iff (h : Holds es f) {key : K} : key ∈ es.map Prod.fst ↔ ∃ v, f key = some v := by
  simp [← h.mem_iff]

/-- Lists that hold the same differ in their order only. -/
theorem perm (h : Holds es f) (h' : Holds es' f) : es.Perm es' := by
  apply (List.perm_ext_iff_of_nodup h.nodup.of_map h'.nodup.of_map).mpr
  rintro ⟨key, value⟩
  rw [h.mem_iff, h'.mem_iff]

end Holds

end Holds

/-! ### Calls -/

/-- A call of the meter. -/
inductive Recording where
  | eviction (region : String) (items : UInt64) (finishedAt : Int)
  | evictionFailure (region : String)
  | deadLettered (n : UInt64)
  | malformed (n : UInt64)
deriving DecidableEq, Repr

namespace Recording

/-- The region that a call is about. -/
def region? : Recording → Option String
  | eviction region _ _ | evictionFailure region => some region
  | deadLettered _ | malformed _ => none

/-- The samples that a call touches. -/
def touched : Recording → List Series
  | eviction region _ _ =>
    [.counter (.evictions region), .counter (.evictedItems region), .finished region]
  | evictionFailure region => [.counter (.evictionFailures region)]
  | deadLettered _ => [.counter .deadLettered]
  | malformed _ => [.counter .malformed]

/-- The counters that are counted on, and by how much. -/
def increments : Recording → List (Counter × UInt64)
  | eviction region items _ => [(.evictions region, 1), (.evictedItems region, items)]
  | evictionFailure region => [(.evictionFailures region, 1)]
  | deadLettered n => [(.deadLettered, n)]
  | malformed n => [(.malformed, n)]

/-- The end of a clear of a region. -/
def finishOf? (region : String) : Recording → Option Int
  | eviction other _ finishedAt => if other = region then some finishedAt else none
  | evictionFailure _ | deadLettered _ | malformed _ => none

/-- The call tells of a clear of a region. -/
def evicts (region : String) (r : Recording) : Bool := (r.finishOf? region).isSome

theorem counter_mem_touched {r : Recording} {c : Counter} :
    .counter c ∈ r.touched ↔ c ∈ r.increments.map Prod.fst := by
  cases r <;> simp [touched, increments]

theorem finished_mem_touched {r : Recording} {region : String} :
    .finished region ∈ r.touched ↔ ∃ i, r.finishOf? region = some i := by
  cases r <;> simp [touched, finishOf?, eq_comm]

/-- A call touches samples of its own region only. -/
theorem region?_of_touched {r : Recording} {s : Series} (h : s ∈ r.touched) :
    s.region? = r.region? := by
  cases r <;> simp only [touched, List.mem_cons, List.not_mem_nil, or_false] at h
  case eviction => rcases h with rfl | rfl | rfl <;> rfl
  all_goals
    rw [h]
    rfl

end Recording

/-- The meter after a call. -/
def record (m : Meter) : Recording → Meter
  | .eviction region items finishedAt => m.addEviction region items finishedAt
  | .evictionFailure region => m.addEvictionFailure region
  | .deadLettered n => m.addDeadLettered n
  | .malformed n => m.addMalformed n

/-- A new meter after so many calls. -/
def after (rs : List Recording) : Meter := rs.foldl record empty

theorem after_concat (rs : List Recording) (r : Recording) :
    after (rs ++ [r]) = (after rs).record r := by
  simp [after, List.foldl_append]

/-- What is counted on one counter, all in all. -/
def amount (c : Counter) (incs : List (Counter × UInt64)) : Nat :=
  ((incs.filter (·.1 = c)).map (·.2.toNat)).sum

/-- What the calls count on one counter, all in all. -/
def total (c : Counter) (rs : List Recording) : Nat := amount c (rs.flatMap Recording.increments)

/-- The end of the last clear of a region. -/
def lastFinish? (region : String) (rs : List Recording) : Option Int :=
  (rs.filterMap (Recording.finishOf? region)).getLast?

/-! ### What a meter holds -/

/-- What a counter stands at after increments, if it was counted on. -/
def tally (incs : List (Counter × UInt64)) (c : Counter) : Option UInt64 :=
  if c ∈ incs.map Prod.fst then some (.ofNat (amount c incs)) else none

/-- A counter that was not counted on stands at zero. -/
theorem getD_tally (incs : List (Counter × UInt64)) (c : Counter) :
    (tally incs c).getD 0 = .ofNat (amount c incs) := by
  unfold tally
  split
  · rfl
  · rename_i hnew
    have hnone : incs.filter (·.1 = c) = [] :=
      List.filter_eq_nil_iff.mpr fun i hi hc =>
        hnew (List.mem_map.mpr ⟨i, hi, of_decide_eq_true hc⟩)
    rw [Option.getD_none, amount, hnone]
    rfl

/-- One more increment, on its own counter. -/
theorem tally_concat (incs : List (Counter × UInt64)) (c : Counter) (n : UInt64) :
    tally (incs ++ [(c, n)])
      = Function.update (tally incs) c (some ((tally incs c).getD 0 + n)) := by
  funext other
  by_cases hother : other = c
  · rw [hother, Function.update_self, getD_tally]
    simp [tally, amount, List.filter_append, UInt64.ofNat_add]
  · have hne : ¬ c = other := Ne.symm hother
    rw [Function.update_of_ne hother]
    simp [tally, amount, List.filter_append, hother, hne]

/-- The counters after one more increment. -/
def increment (es : List (Counter × UInt64)) (i : Counter × UInt64) : List (Counter × UInt64) :=
  assign i.1 ((es.lookup i.1).getD 0 + i.2) es

theorem holds_increments (incs : List (Counter × UInt64)) :
    Holds (incs.foldl increment []) (tally incs) := by
  induction incs using List.reverseRecOn with
  | nil => exact ⟨List.nodup_nil, fun _ => rfl⟩
  | append_singleton incs i ih =>
    rw [List.foldl_append, tally_concat, ← ih.lookup]
    exact ih.assign i.1 _

theorem counters_record (m : Meter) (r : Recording) :
    (m.record r).counters = r.increments.foldl increment m.counters := by
  cases r <;> rfl

/-- The counters hold what was counted on them. -/
theorem holds_counters (rs : List Recording) :
    Holds (after rs).counters (tally (rs.flatMap Recording.increments)) := by
  have hfold : (after rs).counters = (rs.flatMap Recording.increments).foldl increment [] := by
    induction rs using List.reverseRecOn with
    | nil => rfl
    | append_singleton rs r ih =>
      rw [after_concat, counters_record, ih, List.flatMap_append, List.foldl_append,
        List.flatMap_singleton]
  rw [hfold]
  exact holds_increments _

/-- One more call ends at most one more clear. -/
theorem holds_record {m : Meter} {f : String → Option Int} (h : Holds m.finished f)
    (r : Recording) :
    Holds (m.record r).finished fun region => (r.finishOf? region).or (f region) := by
  cases r with
  | eviction region items finishedAt =>
    have hupdate : (fun other => ((Recording.eviction region items finishedAt).finishOf? other).or
        (f other)) = Function.update f region (some finishedAt) := by
      funext other
      by_cases hother : region = other
      · simp [Recording.finishOf?, hother]
      · simp [Recording.finishOf?, hother, Function.update_of_ne (Ne.symm hother)]
    rw [hupdate]
    exact h.assign region finishedAt
  | evictionFailure _ | deadLettered _ | malformed _ => exact h

/-- The instants held are those of the last clears. -/
theorem holds_finished (rs : List Recording) :
    Holds (after rs).finished fun region => lastFinish? region rs := by
  induction rs using List.reverseRecOn with
  | nil => exact ⟨List.nodup_nil, fun _ => rfl⟩
  | append_singleton rs r ih =>
    have hlast : (fun region => lastFinish? region (rs ++ [r]))
        = fun region => (r.finishOf? region).or (lastFinish? region rs) := by
      funext region
      rcases hr : r.finishOf? region with - | i <;> simp [lastFinish?, List.filterMap_append, hr]
    rw [after_concat, hlast]
    exact holds_record ih r

/-! ### Samples as they are written -/

/-- The lines of a meter, unordered. -/
theorem lines_perm (m : Meter) :
    (m.lines true).Perm (m.counters.map (fun s => Counter.series s.1 ++ " " ++ ordinal s.2.toNat) ++
      m.finished.map fun s => finishedSeries s.1 ++ " " ++ String.ofList (plainNearest s.2)) :=
  List.mergeSort_perm _ _

/-- Lines are in order, so it does not matter in which order samples are kept. -/
theorem lines_congr {m m' : Meter} (hcounters : m.counters.Perm m'.counters)
    (hfinished : m.finished.Perm m'.finished) : m.lines true = m'.lines true := by
  have hsorted (m : Meter) : (m.lines true).Pairwise (· ≤ ·) := List.pairwise_mergeSort' (· ≤ ·) _
  have hperm : (m.lines true).Perm (m'.lines true) :=
    (lines_perm m).trans (((hcounters.map _).append (hfinished.map _)).trans (lines_perm m').symm)
  exact List.Perm.eq_of_pairwise' (hsorted m) (hsorted m') hperm

/-- The samples of a meter, with what is written of them. -/
def samples (m : Meter) : List (Series × String) :=
  m.counters.map (fun s => (.counter s.1, ordinal s.2.toNat)) ++
    m.finished.map fun s => (.finished s.1, String.ofList (plainNearest s.2))

/-- What a sample shows after so many calls: of a counter, modulo `2 ^ 64`, what the calls count on
it; of the last clear of a region its end, an instant of 64 bits, as the double that is nearest to
it. -/
def Series.Shows (rs : List Recording) : Series → String → Prop
  | .counter c, v => v = ordinal (total c rs % 2 ^ 64)
  | .finished region, v => ∃ i, lastFinish? region rs = some i ∧
      (i.natAbs ≤ 2 ^ 63 → ShowsNearest i v.toList) ∧
      (i.natAbs < 2 ^ 53 → v = String.ofList (signedDecimal i))

/-- The samples after so many calls, with what they show: just those that a call touched, each under
a name of its own. -/
structure SamplesOf (rs : List Recording) (ss : List (Series × String)) : Prop where
  named : (ss.map fun s => s.1.text).Nodup
  touched : ∀ s, s ∈ ss.map Prod.fst ↔ ∃ r ∈ rs, s ∈ r.touched
  shows : ∀ s ∈ ss, s.1.Shows rs s.2

/-- There is a sample of each counter that a call touched. -/
theorem mem_counters_iff {rs : List Recording} {c : Counter} :
    c ∈ (after rs).counters.map Prod.fst ↔ ∃ r ∈ rs, .counter c ∈ r.touched := by
  rw [(holds_counters rs).mem_keys_iff]
  have htally : (∃ v, tally (rs.flatMap Recording.increments) c = some v)
      ↔ c ∈ (rs.flatMap Recording.increments).map Prod.fst := by
    unfold tally
    split <;> simp_all
  rw [htally, List.map_flatMap, List.mem_flatMap]
  exact exists_congr fun r => and_congr_right fun _ => Recording.counter_mem_touched.symm

/-- There is a sample of the last clear of each region that a call told a clear of. -/
theorem mem_finished_iff {rs : List Recording} {region : String} :
    region ∈ (after rs).finished.map Prod.fst ↔ ∃ r ∈ rs, .finished region ∈ r.touched := by
  rw [(holds_finished rs).mem_keys_iff, ← Option.isSome_iff_exists, lastFinish?,
    List.getLast?_isSome, Ne, List.filterMap_eq_nil_iff, not_forall]
  refine exists_congr fun r => ?_
  rw [Classical.not_imp, Recording.finished_mem_touched, ← Option.ne_none_iff_exists']

theorem samplesOf_after (rs : List Recording) : SamplesOf rs (after rs).samples := by
  have hkeys : (after rs).samples.map Prod.fst
      = ((after rs).counters.map Prod.fst).map Series.counter
        ++ ((after rs).finished.map Prod.fst).map Series.finished := by
    simp [samples, Function.comp_def]
  refine ⟨?_, ?_, ?_⟩
  · have hnodup : ((after rs).samples.map Prod.fst).Nodup := by
      rw [hkeys]
      refine ((holds_counters rs).nodup.map fun _ _ => Series.counter.inj).append
        ((holds_finished rs).nodup.map fun _ _ => Series.finished.inj) ?_
      rintro s hcounter hfinished
      obtain ⟨c, -, rfl⟩ := List.mem_map.mp hcounter
      obtain ⟨region, -, hregion⟩ := List.mem_map.mp hfinished
      cases hregion
    have hnames := hnodup.map Series.text_injective
    rwa [List.map_map] at hnames
  · intro s
    rw [hkeys]
    cases s with
    | counter c => simpa using mem_counters_iff
    | finished region => simpa using mem_finished_iff
  · intro s hs
    rcases List.mem_append.mp hs with hs | hs
    · obtain ⟨⟨c, n⟩, hc, rfl⟩ := List.mem_map.mp hs
      rw [(holds_counters rs).mem_iff, tally, Option.ite_none_right_eq_some] at hc
      obtain ⟨-, hn⟩ := hc
      show ordinal n.toNat = _
      rw [← Option.some.inj hn, UInt64.toNat_ofNat']
      rfl
    · obtain ⟨⟨region, i⟩, hi, rfl⟩ := List.mem_map.mp hs
      rw [(holds_finished rs).mem_iff] at hi
      refine ⟨i, hi, ?_, ?_⟩
      · intro hword
        rw [String.toList_ofList]
        exact plainNearest_shows (hword.trans_lt (by norm_num))
      · intro hsmall
        rw [plainNearest_of_lt hsmall]

/-- The samples of regions are apart from each other, whatever is recorded in whichever order. -/
structure Apart (rs : List Recording) : Prop where
  /-- Each line is a sample's. -/
  lines : ∃ ss, SamplesOf rs ss ∧
    ((after rs).lines true).Perm (ss.map fun s => s.1.text ++ " " ++ s.2)
  /-- Only the order of the clears of each region counts. -/
  reordered : ∀ rs', rs.Perm rs' →
    (∀ region, rs.filter (·.evicts region) = rs'.filter (·.evicts region)) →
    (after rs').lines true = (after rs).lines true

/-- Calls in another order that keeps the order of the clears of each region give the same lines. -/
theorem lines_reordered {rs rs' : List Recording} (h : rs.Perm rs')
    (hevicts : ∀ region, rs.filter (·.evicts region) = rs'.filter (·.evicts region)) :
    (after rs').lines true = (after rs).lines true := by
  have htally :
      tally (rs'.flatMap Recording.increments) = tally (rs.flatMap Recording.increments) := by
    have hincs := (h.flatMap_right Recording.increments).symm
    funext c
    simp only [tally, amount, (hincs.map Prod.fst).mem_iff, ((hincs.filter _).map _).sum_eq]
  have hlast : (fun region => lastFinish? region rs') = fun region => lastFinish? region rs := by
    have hfilter (region : String) (rs : List Recording) :
        rs.filterMap (Recording.finishOf? region)
          = (rs.filter (·.evicts region)).filterMap (Recording.finishOf? region) := by
      rw [List.filterMap_filter]
      congr 1
      funext r
      rcases hr : r.finishOf? region with - | i <;> simp [Recording.evicts, hr]
    funext region
    rw [lastFinish?, lastFinish?, hfilter, hfilter region rs, hevicts]
  apply lines_congr
  · exact (holds_counters rs').perm (htally ▸ holds_counters rs)
  · exact (holds_finished rs').perm (hlast ▸ holds_finished rs)

/-- Metrics of different regions never mix. -/
theorem apart (rs : List Recording)
    (h : ∀ r ∈ rs, ∀ region ∈ r.region?, IsPlain region) : Apart rs := by
  have hplain {s : Series} (hs : ∃ r ∈ rs, s ∈ r.touched) :
      ∀ region ∈ s.region?, IsPlain region := by
    obtain ⟨r, hr, hs⟩ := hs
    rw [Recording.region?_of_touched hs]
    exact h r hr
  refine ⟨⟨(after rs).samples, samplesOf_after rs, ?_⟩, fun rs' => lines_reordered⟩
  have hlines : (after rs).counters.map (fun s => Counter.series s.1 ++ " " ++ ordinal s.2.toNat) ++
      (after rs).finished.map
        (fun s => finishedSeries s.1 ++ " " ++ String.ofList (plainNearest s.2))
      = (after rs).samples.map fun s => s.1.text ++ " " ++ s.2 := by
    rw [samples, List.map_append, List.map_map, List.map_map]
    congr 1
    · apply List.map_congr_left
      intro s hs
      rw [Counter.series_eq (hplain (mem_counters_iff.mp (List.mem_map_of_mem hs)))]
      rfl
    · apply List.map_congr_left
      intro s hs
      rw [finishedSeries_eq (hplain (mem_finished_iff.mp (List.mem_map_of_mem hs)) _ rfl)]
      rfl
  rw [← hlines]
  exact lines_perm _

/-- Clears and a failure of two regions, and of one of them the end is past the 53 bits. -/
theorem apart_twoRegions :
    (∀ r ∈ [Recording.eviction "feed" 5 1700000000000, .evictionFailure "other", .deadLettered 2,
        .eviction "other" (-1) 9223372036854775807, .eviction "feed" 0 (-3), .malformed 0],
      ∀ region ∈ r.region?, IsPlain region) ∧
    Apart [Recording.eviction "feed" 5 1700000000000, .evictionFailure "other", .deadLettered 2,
      .eviction "other" (-1) 9223372036854775807, .eviction "feed" 0 (-3), .malformed 0] :=
  ⟨by simp [Recording.region?, IsPlain], apart _ (by simp [Recording.region?, IsPlain])⟩

/-- An odd instant of 54 bits is no double, so another one is shown. -/
theorem finished_rounded :
    IsPlain "p" ∧
      lastFinish? "p" [.eviction "p" 1 9007199254740993] = some 9007199254740993 ∧
      (Series.finished "p").text ++ " 9007199254740993"
        ∉ (after [.eviction "p" 1 9007199254740993]).lines true ∧
      (Series.finished "p").text ++ " 9007199254740992"
        ∈ (after [.eviction "p" 1 9007199254740993]).lines true := by
  refine ⟨by simp [IsPlain], by simp [lastFinish?, Recording.finishOf?], ?_, ?_⟩
  · rw [(lines_perm _).mem_iff]
    decide +kernel
  · rw [(lines_perm _).mem_iff]
    decide +kernel

end CacheWarden.Meter
