import CacheWarden.Proofs.Service.Loop
/-!
The beat of the eviction loop: what its clears leave it waiting for.

A loop that begins at a time starts its clears at `beatStart`: the first behind the
initial delay, and each further one behind the end of the one before and the delay.
What came of a clear plays no part.

The invariant (`Beating`) ties the clears that were done to the time for which the
loop waits; until the cancellation, that time is not past (`Beating.now_le`).
-/

namespace CacheWarden

/-- The starts of the clears of a loop that begins at a time, by how long each clear takes. -/
def Schedule.starts (w : Schedule) (begin : Nat) (work : Nat → Nat) : Nat → Nat
  | 0 => begin + w.initialDelay.millisUp
  | k + 1 => w.starts begin work k + work k + w.delay.millisUp

namespace Service

/-! ### The schedule -/

/-- The course of a clear to come, by its number. -/
def courseAt (s : Service) (k : Nat) : Course := s.courses[k]?.getD .smooth

/-- How long a clear to come takes, by its number. -/
def workAt (s : Service) (k : Nat) : Nat := (s.courseAt k).work

/-- The start of a clear by its number, for a loop that begins now. -/
def beatStart (s : Service) (k : Nat) : Nat := s.evictor.worker.schedule.starts s.now s.workAt k

/-- The clears of a loop that begins now, for the results that they have. -/
def beats (s : Service) (results : List (Except CacheError Nat)) : List Sweep :=
  results.zipIdx.map fun r =>
    ⟨true, Evictor.region, s.beatStart r.2, s.beatStart r.2 + s.workAt r.2, r.1⟩

/-- The next clear starts the delay behind the end of this one. -/
theorem beatStart_succ (s : Service) (k : Nat) :
    s.beatStart (k + 1)
      = s.beatStart k + s.workAt k + s.evictor.worker.schedule.delay.millisUp := rfl

/-- The clears start one after another. -/
theorem beatStart_mono (s : Service) {k l : Nat} (h : k ≤ l) : s.beatStart k ≤ s.beatStart l := by
  induction h with
  | refl => exact Nat.le_refl _
  | step _ ih =>
    rw [beatStart_succ]
    omega

theorem beats_concat (s : Service) (results : List (Except CacheError Nat))
    (r : Except CacheError Nat) :
    s.beats (results ++ [r]) = s.beats results ++
      [⟨true, Evictor.region, s.beatStart results.length,
        s.beatStart results.length + s.workAt results.length, r⟩] := by
  simp [beats, List.zipIdx_append]

theorem length_beats (s : Service) (results : List (Except CacheError Nat)) :
    (s.beats results).length = results.length := by
  simp [beats]

/-! ### The invariant -/

/-- A loop that has done `n` clears waits for its first turn, or for the start of the next clear;
neither is past. -/
inductive Waits (s₀ : Service) (n : Nat) (s : Service) (t : Task) : Prop
  | first (wait : t.wait = .turn) (none : n = 0) (now : s.now = s₀.now)
  | asleep (wait : t.wait = .until (s₀.beatStart n)) (now : s.now ≤ s₀.beatStart n)

theorem Waits.now_le {s₀ s : Service} {n : Nat} {t : Task} (h : Waits s₀ n s t) :
    s.now ≤ s₀.beatStart n := by
  cases h with
  | first wait none now =>
    subst none
    show s.now ≤ s₀.now + _
    omega
  | asleep wait now => exact now

/-- The loop that began at `s₀` has done clears with these results by now, and waits for the next;
or it is gone, and the token is cancelled. -/
structure Beating (s₀ : Service) (results : List (Except CacheError Nat)) (s : Service) : Prop where
  worker : s.evictor.worker = s₀.evictor.worker
  served : s.evictor.served = true
  courses : s.courses = s₀.courses.drop results.length
  runs : s.evictor.counters.runs = s₀.evictor.counters.runs + .ofNat results.length
  sweeps : s.sweeps = s₀.sweeps ++ s₀.beats results
  failures : ∀ k < results.length, ∀ e, (s₀.courseAt k).failure = some e →
    results[k]? = some (.error e)
  loop : (s.cancelled = true ∧ s.loops = []) ∨
    ∃ t, s.loops = [t] ∧ t.isLoop = true ∧ Waits s₀ results.length s t

namespace Beating

variable {s₀ s s' : Service} {results : List (Except CacheError Nat)}

/-- Until the cancellation, the next clear is not past. -/
theorem now_le (h : Beating s₀ results s) (alive : s.cancelled = false) :
    s.now ≤ s₀.beatStart results.length := by
  rcases h.loop with ⟨hc, -⟩ | ⟨t, -, -, hw⟩
  · rw [alive] at hc
    cases hc
  · exact hw.now_le

theorem of_unmoved (h : Beating s₀ results s) (hu : Unmoved s s') : Beating s₀ results s' where
  worker := by rw [hu.evictor, h.worker]
  served := by rw [hu.evictor, h.served]
  courses := by rw [hu.courses, h.courses]
  runs := by rw [hu.evictor, h.runs]
  sweeps := by rw [hu.sweeps, h.sweeps]
  failures := h.failures
  loop := by
    rw [hu.loops]
    rcases h.loop with ⟨hc, hl⟩ | ⟨t, hl, ht, hw⟩
    · exact Or.inl ⟨hu.cancelled hc, hl⟩
    · refine Or.inr ⟨t, hl, ht, ?_⟩
      cases hw with
      | first wait none now => exact .first wait none (hu.now.trans now)
      | asleep wait now => exact .asleep wait (by rw [hu.now]; exact now)

/-- The loop that has a turn is the one that there is. -/
theorem eq_loop (h : Beating s₀ results s) {t : Task} (mem : t ∈ s.tasks)
    (loop : t.isLoop = true) : s.loops = [t] ∧ Waits s₀ results.length s t := by
  have hmem : t ∈ s.loops := List.mem_filter.mpr ⟨mem, loop⟩
  rcases h.loop with ⟨-, hl⟩ | ⟨u, hl, -, hw⟩
  · rw [hl] at hmem
    cases hmem
  · obtain rfl : t = u := by simpa [hl] using hmem
    exact ⟨hl, hw⟩

/-! ### Kinds of turns -/

/-- The course that is next is that of the next clear. -/
theorem course_eq (h : Beating s₀ results s) : s.course = s₀.courseAt results.length := by
  unfold course courseAt
  rw [h.courses, List.headD_eq_head?_getD, List.head?_drop]

/-- The first turn of the loop: it sleeps for the initial delay. -/
theorem wake (h : Beating s₀ results s) {t : Task} (mem : t ∈ s.tasks) (loop : t.isLoop = true)
    (new : t.isNew = true) : Beating s₀ results ((s.drop t).wake t) := by
  obtain ⟨hl, hw⟩ := h.eq_loop mem loop
  have hwait : t.wait = .turn := by simpa [Task.isNew] using new
  refine ⟨h.worker, h.served, h.courses, h.runs, h.sweeps, h.failures, Or.inr ?_⟩
  refine ⟨{ t with wait := .until (s.now + s.evictor.worker.schedule.initialDelay.millisUp) },
    ?_, loop, ?_⟩
  · show loops (spawn ((s.drop t).tell _) _) = _
    rw [loops_spawn]
    show (s.drop t).loops ++ _ = _
    rw [loops_drop, hl, List.erase_cons_head, List.nil_append]
    exact if_pos loop
  · cases hw with
    | first wait none now =>
      -- no time has passed since the start
      have hdue : s.now + s.evictor.worker.schedule.initialDelay.millisUp
          = s₀.beatStart results.length := by
        rw [none, now, h.worker]
        rfl
      exact .asleep (congrArg Wait.until hdue) (by rw [← hdue]; exact Nat.le_add_right _ _)
    | asleep wait now =>
      rw [hwait] at wait
      cases wait

/-- A clear of the loop starts in time, has one more result, and leaves the loop waiting for the
next. -/
theorem tick (h : Beating s₀ results s) {t : Task} {due : Nat} (mem : t ∈ s.tasks)
    (loop : t.isLoop = true) (due_eq : t.due? = some due) (le : due ≤ s.now) :
    s.now = s₀.beatStart results.length ∧
      Beating s₀ (results ++ [(s.drop t).swept.2]) ((s.drop t).tick t) ∧
      ((s.drop t).tick t).now ≤ s₀.beatStart (results.length + 1) := by
  obtain ⟨hl, hw⟩ := h.eq_loop mem loop
  -- the loop was due by now, and its time is not past
  have hnow : s.now = s₀.beatStart results.length := by
    cases hw with
    | first wait none now => simp [Task.due?, wait] at due_eq
    | asleep wait now =>
      obtain rfl : s₀.beatStart results.length = due := by simpa [Task.due?, wait] using due_eq
      exact Nat.le_antisymm now le
  have hwork : (s.drop t).course.work = s₀.workAt results.length := by
    show s.course.work = _
    rw [h.course_eq, workAt]
  have hend : (s.drop t).sweepEnd
      = s₀.beatStart results.length + s₀.workAt results.length := by
    show s.now + (s.drop t).course.work = _
    rw [hwork, hnow]
  have hnext : (s.drop t).sweepEnd + (s.drop t).evictor.worker.schedule.delay.millisUp
      = s₀.beatStart (results.length + 1) := by
    rw [hend, beatStart_succ]
    show _ + s.evictor.worker.schedule.delay.millisUp = _
    rw [h.worker]
  have hlate : (s.drop t).sweepEnd ≤ s₀.beatStart (results.length + 1) := by
    rw [← hnext]
    exact Nat.le_add_right _ _
  have hlen : (results ++ [(s.drop t).swept.2]).length = results.length + 1 := by simp
  obtain ⟨notices, htick⟩ := tick_eq (s.drop t) t
  rw [htick, clearCache_eq]
  refine ⟨hnow, ⟨?_, ?_, ?_, ?_, ?_, ?_, Or.inr ?_⟩, ?_⟩
  · exact (Evictor.record_worker ..).trans h.worker
  · exact (Evictor.record_served ..).trans h.served
  · show s.courses.tail = _
    rw [h.courses, List.tail_drop, hlen]
  · refine (Evictor.record_runs ..).trans ?_
    show s.evictor.counters.runs + 1 = _
    rw [h.runs, hlen, UInt64.add_assoc]
    simp
  · show s.sweeps ++ [⟨true, Evictor.region, s.now, (s.drop t).sweepEnd, _⟩] = _
    rw [beats_concat, h.sweeps, hend, hnow, List.append_assoc]
  · intro k hk e he
    rcases Nat.lt_or_ge k results.length with hlt | hge
    · rw [List.getElem?_append_left hlt]
      exact h.failures k hlt e he
    · -- the clear of this turn
      obtain rfl : k = results.length := by
        rw [hlen] at hk
        exact Nat.le_antisymm (Nat.le_of_lt_succ hk) hge
      have hcourse : (s.drop t).course.failure = some e := by
        show s.course.failure = some e
        rw [h.course_eq, he]
      have hresult : (s.drop t).swept.2 = .error e := by
        unfold swept
        rw [hcourse]
      rw [hresult]
      simp
  · refine ⟨{ t with wait := .until _ }, ?_, loop, .asleep rfl ?_⟩
    · show ((s.drop t).tasks ++ [_]).filter Task.isLoop = _
      rw [List.filter_append]
      show (s.drop t).loops ++ _ = _
      rw [loops_drop, hl, hnext, hlen, List.erase_cons_head, List.nil_append]
      exact List.filter_cons_of_pos loop
    · rw [hlen]
      exact hlate
  · exact hlate

/-- The end of the loop. -/
theorem gone (h : Beating s₀ results s) {t : Task} (mem : t ∈ s.tasks) (loop : t.isLoop = true)
    (cancelled : s.cancelled = true) :
    Beating s₀ results ((s.drop t).tell [.workerGone Evictor.name]) := by
  obtain ⟨hl, -⟩ := h.eq_loop mem loop
  refine ⟨h.worker, h.served, h.courses, h.runs, h.sweeps, h.failures, Or.inl ⟨cancelled, ?_⟩⟩
  show (s.drop t).loops = []
  rw [loops_drop, hl]
  simp

/-- The loop does not learn of the cancellation as others do. -/
theorem setOff (h : Beating s₀ results s) :
    Beating s₀ results { s with tasks := s.tasks.map (Task.setOff s.now) } := by
  refine h.of_unmoved ⟨rfl, rfl, rfl, rfl, loops_setOff s s.now ?_, id⟩
  intro t ht
  rcases h.loop with ⟨-, hl⟩ | ⟨u, hl, -, hw⟩
  · rw [hl] at ht
    cases ht
  · obtain rfl : t = u := by simpa [hl] using ht
    obtain ⟨tracker, job, wait⟩ := t
    cases hw with
    | first hwait _ _ | asleep hwait _ =>
      dsimp only at hwait
      rw [hwait]
      rfl

end Beating

end Service

end CacheWarden
