import CacheWarden.Proofs.Eviction.Samples
import CacheWarden.Proofs.Service.Turn
import Mathlib
/-!
The books of an evictor: what it takes down of its clears, and what they amount to.

Every clear is taken down three times, in the counters, in the meter and in the log.
`Tally` says what each of the three holds in terms of the clears alone: how many were
done, which failed and on which region, what was removed, and when the last success
ended.  So the three agree with each other whatever the clears came to.

An entry keeps the tally (`Tally.enter`), hence it holds of any list of clears
(`Tally.keep`): the results may be any that a manager of regions can give.
-/

namespace CacheWarden

/-! ### What is known of a clear -/

namespace Sweep

/-- The clear failed. -/
def failed (w : Sweep) : Bool :=
  match w.result with
  | .ok _ => false
  | .error _ => true

/-- The region that its error names. -/
def blamed? (w : Sweep) : Option String :=
  match w.result with
  | .ok _ => none
  | .error e => some e.region

/-- How many entries it removed. -/
def removed (w : Sweep) : Nat := Evictor.removed w.result

/-- What the loop says of a clear of its own, if it failed. -/
def outcry (w : Sweep) : List Notice :=
  match w.scheduled, w.result with
  | true, .error e => [Evictor.tickFailed e]
  | _, _ => []

/-- The lines of a clear in a log, the number of failures by then given: one that tells of its
completion, or one that tells of its failure, and one more if that was a clear of the loop. -/
def lines (failures : Nat) (w : Sweep) : List Record :=
  match w.result with
  | .ok n =>
    [⟨.trace, .telemetry, "cache region cleared",
      [("name", .plain Evictor.name), ("component", .text "evictor"),
        ("region", .plain Evictor.region), ("evicted_items", .number n)]⟩]
  | .error e =>
    ⟨.debug, .telemetry, "eviction attempt failed",
      [("name", .plain Evictor.name), ("component", .text "evictor"), ("region", .plain e.region),
        ("failures_total", .number (failures % wordBound))]⟩ ::
      if w.scheduled then
        [⟨.error, .evictor, "scheduled eviction failed",
          [("name", .plain Evictor.name), ("component", .text "evictor"),
            ("region", .plain e.region), ("error", .plain e.message)]⟩]
      else []

/-- The lines of clears, one after another, behind so many failures. -/
def log (failures : Nat) : List Sweep → List Record
  | [] => []
  | w :: ws =>
    let failures := failures + if w.failed then 1 else 0
    w.lines failures ++ log failures ws

theorem log_append (failures : Nat) (ws vs : List Sweep) :
    log failures (ws ++ vs) = log failures ws ++ log (failures + ws.countP failed) vs := by
  induction ws generalizing failures with
  | nil => simp [log]
  | cons w ws ih =>
    have hsum : failures + (if w.failed then 1 else 0) + ws.countP failed
        = failures + (w :: ws).countP failed := by
      rw [List.countP_cons]
      omega
    simp [log, ih, hsum]

/-- When the last success ended, zero if there was none. -/
def finishedAt (epoch : Int) (ws : List Sweep) : Int :=
  ((ws.filter (!·.failed)).getLast?.map fun w => epoch + w.stop).getD 0

/-- A failure does not count. -/
theorem finishedAt_concat (epoch : Int) (ws : List Sweep) (w : Sweep) :
    finishedAt epoch (ws ++ [w]) = if w.failed then finishedAt epoch ws else epoch + w.stop := by
  unfold finishedAt
  rw [List.filter_append]
  rcases h : w.failed with - | - <;> simp [h]

end Sweep

/-! ### Entries -/

/-- What an evictor has taken down: its own counters, the samples of the meter, and the log. -/
structure Books where
  counters : Counters
  meter : Meter
  log : List Notice

namespace Books

/-- Nothing taken down yet. -/
def empty : Books := ⟨.zero, .empty, []⟩

/-- Takes down a clear, as the evictor of a worker does; of a clear of its own that failed, the loop
says so besides. -/
def enter (worker : Worker) (epoch : Int) (b : Books) (w : Sweep) : Books :=
  let (evictor, meter, ns) :=
    { Evictor.new worker with counters := b.counters }.record b.meter w.result (epoch + w.stop)
  ⟨evictor.counters, meter, b.log ++ (ns ++ w.outcry)⟩

/-- Takes down clears, one after another. -/
def keep (worker : Worker) (epoch : Int) (b : Books) (ws : List Sweep) : Books :=
  ws.foldl (enter worker epoch) b

theorem keep_concat (worker : Worker) (epoch : Int) (b : Books) (ws : List Sweep) (w : Sweep) :
    b.keep worker epoch (ws ++ [w]) = (b.keep worker epoch ws).enter worker epoch w := by
  simp [keep, List.foldl_append]

variable (worker : Worker) (epoch : Int) (b : Books)

theorem enter_of_ok {w : Sweep} {n : Nat} (h : w.result = .ok n) :
    b.enter worker epoch w =
      ⟨b.counters.recordSuccess (.ofNat n) (epoch + w.stop),
        b.meter.addEviction Evictor.region (.ofNat n) (epoch + w.stop),
        b.log ++ [.regionCleared Evictor.name Evictor.region n]⟩ := by
  have hcry : w.outcry = [] := by
    unfold Sweep.outcry
    rw [h]
    rcases w.scheduled with - | - <;> rfl
  unfold enter
  rw [h, hcry]
  rfl

theorem enter_of_error {w : Sweep} {e : CacheError} (h : w.result = .error e) :
    b.enter worker epoch w =
      ⟨b.counters.recordFailure,
        b.meter.addEvictionFailure e.region,
        b.log ++ (.clearFailed Evictor.name e.region (b.counters.failures + 1).toNat ::
          if w.scheduled then [Evictor.tickFailed e] else [])⟩ := by
  have hcry : w.outcry = if w.scheduled then [Evictor.tickFailed e] else [] := by
    unfold Sweep.outcry
    rw [h]
    rcases w.scheduled with - | - <;> rfl
  unfold enter
  rw [h, hcry]
  rfl

end Books

/-! ### The tally -/

/-- The books hold what some clears amount to.  Numbers count modulo 2⁶⁴. -/
structure Tally (epoch : Int) (ws : List Sweep) (b : Books) : Prop where
  /-- Every clear is a run. -/
  runs : b.counters.runs = .ofNat ws.length
  failures : b.counters.failures = .ofNat (ws.countP Sweep.failed)
  evictedItems : b.counters.evictedItems = .ofNat (ws.map Sweep.removed).sum
  /-- The instant is that of the last success. -/
  finishedAt : b.counters.finishedAt = Sweep.finishedAt epoch ws
  /-- The meter counts the successes of the evictor's region. -/
  evictions : b.meter.count (.evictions Evictor.region) = .ofNat (ws.countP (!·.failed))
  /-- It counts the same entries as the counters do. -/
  items : b.meter.count (.evictedItems Evictor.region) = b.counters.evictedItems
  /-- The gauge shows the instant of the last success, once there was one. -/
  gauge : b.meter.finished
    = if ws.all Sweep.failed then [] else [(Evictor.region, b.counters.finishedAt)]
  /-- There is one sample of failures for each region that an error named, and no other. -/
  blamed : (b.meter.failed.map Prod.fst).Nodup ∧
    ∀ region, region ∈ b.meter.failed.map Prod.fst ↔ ∃ w ∈ ws, w.blamed? = some region
  /-- It counts the errors that named the region. -/
  blames : ∀ region, b.meter.count (.evictionFailures region)
    = .ofNat (ws.countP (·.blamed? == some region))
  /-- Together these samples hold as many failures as the counters. -/
  blameSum : (b.meter.failed.map Prod.snd).sum = b.counters.failures
  /-- A run is an eviction or a failure. -/
  total : b.counters.runs
    = b.meter.count (.evictions Evictor.region) + (b.meter.failed.map Prod.snd).sum
  /-- The log has the lines of the clears, in their order. -/
  log : b.log.map Notice.record = Sweep.log 0 ws

namespace Tally

variable {epoch : Int} {ws : List Sweep} {b : Books}

theorem empty (epoch : Int) : Tally epoch [] .empty where
  runs := rfl
  failures := rfl
  evictedItems := rfl
  finishedAt := rfl
  evictions := rfl
  items := rfl
  gauge := rfl
  blamed := ⟨List.nodup_nil, by simp [Books.empty, Meter.empty, Meter.failed]⟩
  blames _ := rfl
  blameSum := rfl
  total := rfl
  log := rfl

/-- A success goes into the tally. -/
theorem enter_ok (h : Tally epoch ws b) (worker : Worker) {w : Sweep} {n : Nat}
    (hw : w.result = .ok n) :
    Tally epoch (ws ++ [w]) (b.enter worker epoch w) := by
  have hfailed : w.failed = false := by simp [Sweep.failed, hw]
  have hremoved : w.removed = n := by simp [Sweep.removed, hw, Evictor.removed]
  have hblamed : w.blamed? = none := by simp [Sweep.blamed?, hw]
  obtain ⟨hevictions, hitems, hblames, hsamples⟩ :=
    b.meter.addEviction_eq Evictor.region (.ofNat n) (epoch + w.stop)
  rw [b.enter_of_ok worker epoch hw]
  constructor
  case runs =>
    show b.counters.runs + 1 = _
    rw [h.runs, List.length_append, UInt64.ofNat_add]
    rfl
  case failures =>
    show b.counters.failures = _
    rw [h.failures, List.countP_append]
    simp [hfailed]
  case evictedItems =>
    show b.counters.evictedItems + .ofNat n = _
    rw [h.evictedItems, ← UInt64.ofNat_add]
    simp [hremoved]
  case finishedAt =>
    show epoch + w.stop = _
    rw [Sweep.finishedAt_concat, hfailed]
    rfl
  case evictions =>
    rw [hevictions, h.evictions, List.countP_append, UInt64.ofNat_add]
    simp [hfailed]
  case items =>
    rw [hitems, h.items]
    rfl
  case gauge =>
    show Meter.assign Evictor.region _ b.meter.finished = _
    rw [h.gauge]
    -- the instant is put in the place of an earlier one, if there is one
    split <;> simp [Meter.assign, hfailed, Counters.recordSuccess]
  case blamed =>
    rw [hsamples]
    refine ⟨h.blamed.1, fun region => ?_⟩
    rw [h.blamed.2 region]
    simp [hblamed, or_and_right, exists_or]
  case blames =>
    intro region
    rw [hblames, h.blames, List.countP_append]
    simp [hblamed]
  case blameSum =>
    rw [hsamples]
    exact h.blameSum
  case total =>
    -- one more on both sides, on the right among the evictions
    rw [hevictions, hsamples]
    show b.counters.runs + 1 = _
    rw [h.total, UInt64.add_assoc, UInt64.add_comm _ 1, ← UInt64.add_assoc]
  case log =>
    rw [List.map_append, h.log, Sweep.log_append]
    simp [Sweep.log, Sweep.lines, hw, Notice.record]

/-- So does a failure. -/
theorem enter_error (h : Tally epoch ws b) (worker : Worker) {w : Sweep} {e : CacheError}
    (hw : w.result = .error e) :
    Tally epoch (ws ++ [w]) (b.enter worker epoch w) := by
  have hfailed : w.failed = true := by simp [Sweep.failed, hw]
  have hremoved : w.removed = 0 := by simp [Sweep.removed, hw, Evictor.removed]
  have hblamed : w.blamed? = some e.region := by simp [Sweep.blamed?, hw]
  have hfailures : b.counters.failures + 1 = .ofNat ((ws ++ [w]).countP Sweep.failed) := by
    rw [h.failures, List.countP_append, UInt64.ofNat_add]
    simp [hfailed]
  have hother {c : Counter} (hc : c ≠ .evictionFailures e.region) :
      (b.meter.addEvictionFailure e.region).count c = b.meter.count c :=
    Meter.count_add_of_ne _ hc 1
  rw [b.enter_of_error worker epoch hw]
  constructor
  case runs =>
    show b.counters.runs + 1 = _
    rw [h.runs, List.length_append, UInt64.ofNat_add]
    rfl
  case failures => exact hfailures
  case evictedItems =>
    show b.counters.evictedItems = _
    rw [h.evictedItems]
    simp [hremoved]
  case finishedAt =>
    show b.counters.finishedAt = _
    rw [h.finishedAt, Sweep.finishedAt_concat, hfailed]
    rfl
  case evictions =>
    rw [hother (by simp), h.evictions, List.countP_append]
    simp [hfailed]
  case items =>
    rw [hother (by simp), h.items]
    rfl
  case gauge =>
    show b.meter.finished = _
    rw [h.gauge, List.all_append]
    simp [hfailed, Counters.recordFailure]
  case blamed =>
    obtain ⟨hnodup, hmem⟩ := h.blamed
    have hnamed (region : String) : (∃ v ∈ ws ++ [w], v.blamed? = some region)
        ↔ region ∈ b.meter.failed.map Prod.fst ∨ region = e.region := by
      rw [hmem]
      simp [hblamed, or_and_right, exists_or, eq_comm]
    rw [Meter.addEvictionFailure_regions]
    -- the region has a sample, or gets one behind the others
    split
    · rename_i hin
      refine ⟨hnodup, fun region => ?_⟩
      rw [hnamed]
      refine ⟨Or.inl, ?_⟩
      rintro (hr | rfl)
      · exact hr
      · exact hin
    · rename_i hnew
      refine ⟨?_, fun region => ?_⟩
      · rw [List.nodup_append]
        refine ⟨hnodup, by simp, ?_⟩
        intro region hr other hother heq
        obtain rfl := List.mem_singleton.mp hother
        exact hnew (heq ▸ hr)
      · rw [hnamed, List.mem_append, List.mem_singleton]
  case blames =>
    intro region
    rw [List.countP_append, UInt64.ofNat_add, ← h.blames]
    by_cases hr : region = e.region
    · subst hr
      show (b.meter.add _ 1).count _ = _
      rw [Meter.count_add_self]
      simp [hblamed]
    · rw [hother (by simpa using hr)]
      simp [hblamed, Ne.symm hr]
  case blameSum =>
    rw [Meter.addEvictionFailure_sum, h.blameSum]
    rfl
  case total =>
    -- this time it is among the failures
    rw [hother (by simp), Meter.addEvictionFailure_sum]
    show b.counters.runs + 1 = _
    rw [h.total, UInt64.add_assoc]
  case log =>
    -- the line carries the counter as it is behind the failure
    have hnumber : (b.counters.failures + 1).toNat
        = (ws.countP Sweep.failed + 1) % wordBound := by
      rw [hfailures, List.countP_append]
      simp [hfailed, wordBound]
    rw [List.map_append, h.log, Sweep.log_append, hnumber]
    rcases hs : w.scheduled with - | - <;>
      simp [Sweep.log, Sweep.lines, hw, hs, hfailed, Notice.record, Evictor.tickFailed]

theorem enter (h : Tally epoch ws b) (worker : Worker) (w : Sweep) :
    Tally epoch (ws ++ [w]) (b.enter worker epoch w) := by
  rcases hw : w.result with e | n
  · exact h.enter_error worker hw
  · exact h.enter_ok worker hw

theorem keep (worker : Worker) (epoch : Int) (ws : List Sweep) :
    Tally epoch ws (Books.empty.keep worker epoch ws) := by
  -- the last clear is the one that is entered last
  induction ws using List.reverseRecOn with
  | nil => exact empty epoch
  | append_singleton ws w ih =>
    rw [Books.keep_concat]
    exact ih.enter worker w

end Tally

end CacheWarden
