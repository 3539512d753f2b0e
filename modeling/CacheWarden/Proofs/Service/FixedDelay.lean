import CacheWarden.Proofs.Service.Beat
/-!
The fixed-delay law of the eviction loop.

`fixed_delay` is about a loop that is started at any point of the life of a service,
and about anything that may happen from there on as long as the clock is exact and
nobody else clears: other tasks, work on the regions, further starts, and a
cancellation at any time, from inside a clear too.  The clears that are done are the
first ones of the schedule, each at its time; one whose time has come is missing only
if the token was cancelled by then; and once it is cancelled there are no more.

Each moment does one clear or none (`Beaten`), and the run lemma (`Beating.after`)
collects at which moments they were.
-/

namespace CacheWarden.Service

/-! ### One moment -/

/-- What a moment adds to the clears: nothing; or one that was due just then, and the token was not
cancelled. -/
inductive Beaten (s₀ : Service) (results : List (Except CacheError Nat)) (s s' : Service) : Prop
  | kept (beating : Beating s₀ results s')
      (inTime : s.cancelled = false → s'.now ≤ s₀.beatStart results.length)
  | cleared (r : Except CacheError Nat) (beating : Beating s₀ (results ++ [r]) s')
      (inTime : s'.now ≤ s₀.beatStart (results.length + 1)) (alive : s.cancelled = false)
      (now : s.now = s₀.beatStart results.length)

namespace Beating

variable {s₀ s s' : Service} {results : List (Except CacheError Nat)}

theorem kept (h : Beating s₀ results s) (hu : Unmoved s s') : Beaten s₀ results s s' := by
  refine .kept (h.of_unmoved hu) ?_
  intro alive
  rw [hu.now]
  exact h.now_le alive

theorem turn (h : Beating s₀ results s) (ht : Turn s s') : Beaten s₀ results s s' := by
  cases ht with
  | chore other => exact h.kept (unmoved_chore s other)
  | wake mem loop new => exact .kept (h.wake mem loop new) h.now_le
  | tick mem loop alive due_eq le =>
    obtain ⟨hnow, hb, hlate⟩ := h.tick mem loop due_eq le
    exact .cleared _ hb hlate alive hnow
  | gone mem loop cancelled =>
    refine .kept (h.gone mem loop cancelled) ?_
    intro alive
    rw [cancelled] at alive
    cases alive
  | setOff cancelled => exact .kept h.setOff h.now_le

/-- Where there is no turn to take, the loop sleeps, and its time is still to come. -/
theorem asleep (h : Beating s₀ results s) (ht : s.turn? = none) :
    (s.cancelled = true ∧ s.loops = []) ∨
      ∃ t ∈ s.tasks, s.loops = [t] ∧ t.isLoop = true ∧
        t.wait = .until (s₀.beatStart results.length) ∧ s.now < s₀.beatStart results.length := by
  rcases h.loop with hgone | ⟨t, hl, hloop, hw⟩
  · exact .inl hgone
  · have hmem : t ∈ s.tasks := by
      have : t ∈ s.loops := by simp [hl]
      exact (List.mem_filter.mp this).1
    obtain ⟨hnew, hlate⟩ := turn?_eq_none ht
    cases hw with
    | first wait none now =>
      have := hnew t hmem
      simp [Task.isNew, wait] at this
    | asleep wait now =>
      have hdue : t.due? = some (s₀.beatStart results.length) := by simp [Task.due?, wait]
      exact .inr ⟨t, hmem, hl, hloop, wait, hlate t hmem _ hdue⟩

/-- An exact clock does not take the loop past its time. -/
theorem pass (h : Beating s₀ results s) {time : Nat} (hm : s.spares (.pass time) = true) :
    Beaten s₀ results s { s with now := max s.now time } := by
  obtain ⟨hturn, hnext⟩ : s.turn? = none ∧ s.nextDue?.all (time ≤ ·) = true := by
    simpa [spares] using hm
  rcases h.asleep hturn with hgone | ⟨t, hmem, hl, hloop, wait, hnow⟩
  · refine .kept ⟨h.worker, h.served, h.courses, h.runs, h.sweeps, h.failures, .inl hgone⟩ ?_
    intro alive
    rw [hgone.1] at alive
    cases alive
  · have hdue : t.due? = some (s₀.beatStart results.length) := by simp [Task.due?, wait]
    obtain ⟨due, heq, hle⟩ := s.nextDue?_le hmem hdue
    -- the clock stops at what is due next, and the loop is not due before that
    have htime : time ≤ due := by simpa [heq] using hnext
    have hmax : max s.now time ≤ s₀.beatStart results.length :=
      Nat.max_le.mpr ⟨Nat.le_of_lt hnow, Nat.le_trans htime hle⟩
    exact .kept ⟨h.worker, h.served, h.courses, h.runs, h.sweeps, h.failures,
      .inr ⟨t, hl, hloop, .asleep wait hmax⟩⟩ (fun _ => hmax)

/-- Any moment that leaves the loop to its schedule does one clear of it or none. -/
theorem meet (h : Beating s₀ results s) {m : Moment} (hm : s.spares m = true) :
    Beaten s₀ results s (s.meet m).1 := by
  cases m with
  | turn =>
    show Beaten s₀ results s (s.turn?.getD s)
    rcases ht : s.turn? with - | s'
    · exact h.kept (.refl s)
    · exact h.turn (.of_turn? ht)
  | pass time => exact h.pass hm
  | serve tracker => exact h.kept (unmoved_serve s tracker h.served)
  | clear => cases hm
  | put _ _ _ | get _ _ | clearAll _ => exact h.kept ⟨rfl, rfl, rfl, rfl, rfl, id⟩
  | cancel => exact h.kept ⟨rfl, rfl, rfl, rfl, rfl, fun _ => rfl⟩
  | cancelAt _ | interruptAt _ | spawn _ _ => exact h.kept (unmoved_spawn s rfl)

end Beating

/-! ### Runs -/

/-- A moment of a life, by its number, starts the clear of a number: in time, and with the token not
cancelled. -/
structure Starts (s₀ s : Service) (ms : List Moment) (k j : Nat) : Prop where
  alive : (s.after (ms.take j)).cancelled = false
  now : (s.after (ms.take j)).now = s₀.beatStart k
  before : (s.after (ms.take j)).sweeps.length = s₀.sweeps.length + k
  behind : (s.after (ms.take (j + 1))).sweeps.length = s₀.sweeps.length + k + 1

/-- At a moment of a life, by its number, the token is cancelled, and the clear of a number is not
past. -/
structure Stopped (s₀ s : Service) (ms : List Moment) (k j : Nat) : Prop where
  cancelled : (s.after (ms.take j)).cancelled = true
  now : (s.after (ms.take j)).now ≤ s₀.beatStart k

namespace Beating

variable {s₀ s : Service} {results : List (Except CacheError Nat)}

theorem length_sweeps (h : Beating s₀ results s) :
    s.sweeps.length = s₀.sweeps.length + results.length := by
  rw [h.sweeps, List.length_append, length_beats]

/-- A life with an exact clock has more clears, none of them behind the cancellation, each of them
started at a moment of its own; and if the token is cancelled in the end, that was before the next
clear was past. -/
theorem after (h : Beating s₀ results s) (ms : List Moment) (hp : s.punctual ms = true) :
    ∃ more, Beating s₀ (results ++ more) (s.after ms) ∧
      (s.cancelled = true → more = []) ∧
      (∀ k, results.length ≤ k → k < (results ++ more).length →
        ∃ j < ms.length, Starts s₀ s ms k j) ∧
      ((s.after ms).cancelled = true → s.now ≤ s₀.beatStart results.length →
        ∃ j ≤ ms.length, Stopped s₀ s ms (results ++ more).length j) := by
  induction ms generalizing s results with
  | nil =>
    refine ⟨[], by simpa using h, fun _ => rfl, ?_, ?_⟩
    · intro k hge hlt
      rw [List.append_nil] at hlt
      exact absurd hlt (Nat.not_lt.mpr hge)
    · intro hc hnow
      exact ⟨0, Nat.le_refl _, hc, by simpa using hnow⟩
  | cons m ms ih =>
    obtain ⟨hm, hms⟩ : s.spares m = true ∧ (s.meet m).1.punctual ms = true := by
      simpa [punctual] using hp
    cases h.meet hm with
    | kept beating inTime =>
      obtain ⟨more, hb, hfrozen, hstarts, hstopped⟩ := ih beating hms
      refine ⟨more, hb, fun hc => hfrozen (cancelled_meet hc m), ?_, ?_⟩
      · intro k hge hlt
        obtain ⟨j, hj, hs⟩ := hstarts k hge hlt
        exact ⟨j + 1, Nat.succ_lt_succ hj, hs.alive, hs.now, hs.before, hs.behind⟩
      · intro hc hnow
        rcases ha : s.cancelled with - | -
        · obtain ⟨j, hj, hs⟩ := hstopped hc (inTime ha)
          exact ⟨j + 1, Nat.succ_le_succ hj, hs.cancelled, hs.now⟩
        · refine ⟨0, Nat.zero_le _, ha, Nat.le_trans hnow (beatStart_mono s₀ ?_)⟩
          rw [List.length_append]
          exact Nat.le_add_right _ _
    | cleared r beating inTime alive now =>
      obtain ⟨more, hb, -, hstarts, hstopped⟩ := ih beating hms
      have hlen : (results ++ [r]).length = results.length + 1 := by simp
      have happ : results ++ [r] ++ more = results ++ r :: more := by simp
      rw [happ] at hb hstarts hstopped
      rw [hlen] at hstarts hstopped
      refine ⟨r :: more, hb, ?_, ?_, ?_⟩
      · intro hc
        rw [alive] at hc
        cases hc
      · intro k hge hlt
        rcases Nat.eq_or_lt_of_le hge with rfl | hgt
        · -- the clear of this very moment
          refine ⟨0, Nat.succ_pos _, alive, now, h.length_sweeps, ?_⟩
          show (s.meet m).1.sweeps.length = _
          rw [beating.length_sweeps, hlen]
          rfl
        · obtain ⟨j, hj, hs⟩ := hstarts k hgt hlt
          exact ⟨j + 1, Nat.succ_lt_succ hj, hs.alive, hs.now, hs.before, hs.behind⟩
      · intro hc hnow
        obtain ⟨j, hj, hs⟩ := hstopped hc inTime
        exact ⟨j + 1, Nat.succ_le_succ hj, hs.cancelled, hs.now⟩

/-- A clear whose time has come is done, unless the token is cancelled. -/
theorem lt_length_of_due (h : Beating s₀ results s) (alive : s.cancelled = false) {k : Nat}
    (hk : s₀.beatStart k < s.now ∨ s₀.beatStart k ≤ s.now ∧ s.turn? = none) :
    k < results.length := by
  refine Nat.lt_of_not_le fun hge => ?_
  have hmono := beatStart_mono s₀ hge
  rcases hk with hlt | ⟨hle, ht⟩
  · have := h.now_le alive
    omega
  · rcases h.asleep ht with ⟨hc, -⟩ | ⟨t, -, -, -, -, hnow⟩
    · rw [alive] at hc
      cases hc
    · omega

/-- The loop at its start. -/
theorem serve {s : Service} (tracker : TrackerId) (enabled : s.evictor.worker.enabled = true)
    (unserved : s.evictor.served = false) (idle : s.loops = []) :
    Beating s [] (s.serve tracker).1 := by
  unfold Service.serve
  rw [Evictor.serve_first enabled unserved]
  refine ⟨rfl, rfl, rfl, (UInt64.add_zero _).symm, (List.append_nil _).symm, ?_, .inr ?_⟩
  · intro k hk
    cases hk
  · refine ⟨⟨some tracker, .evict, .turn⟩, ?_, rfl, .first rfl rfl rfl⟩
    show loops (spawn _ _) = _
    rw [loops_spawn]
    show s.loops ++ _ = _
    rw [idle]
    rfl

end Beating

/-! ### The law -/

/-- **The fixed-delay law.**  A loop that is switched on is started, for the first time, at any
point of the life of a service; then anything happens that leaves it to its schedule.  There are
results, one for each clear that the loop has done, such that

* the clears are the first ones of the schedule, each from its start to its end, and all counted;
  a clear whose course fails has failed;
* each of them was started at its time, while the token was not cancelled;
* any other whose time has come is missing because the token was cancelled by that time;
* from a moment at which the token is cancelled, there are no more; none at all, if it was cancelled
  before the loop began. -/
theorem fixed_delay (epoch : Int) (timeout : Span) (cache : Cache) (worker : Worker)
    (courses : List Course) (past ms : List Moment) (tracker : TrackerId)
    (enabled : worker.enabled = true)
    (unserved : ((start epoch timeout cache worker courses).after past).evictor.served = false)
    (exact : (((start epoch timeout cache worker courses).after past).serve tracker).1.punctual ms
      = true) :
    let s := (start epoch timeout cache worker courses).after past
    let begun := (s.serve tracker).1
    let behind := begun.after ms
    ∃ results : List (Except CacheError Nat),
      (behind.sweeps = s.sweeps ++ s.beats results ∧
        behind.evictor.counters.runs = s.evictor.counters.runs + .ofNat results.length ∧
        ∀ k < results.length, ∀ e, (s.courseAt k).failure = some e →
          results[k]? = some (.error e)) ∧
      (∀ k < results.length, ∃ j < ms.length, Starts s begun ms k j) ∧
      (∀ k, results.length ≤ k →
        (s.beatStart k < behind.now ∨ s.beatStart k ≤ behind.now ∧ behind.turn? = none) →
        ∃ j ≤ ms.length, Stopped s begun ms k j) ∧
      (∀ j ≤ ms.length, (begun.after (ms.take j)).cancelled = true →
        behind.sweeps = (begun.after (ms.take j)).sweeps) ∧
      (s.cancelled = true → results = []) := by
  intro s begun behind
  have hworker : s.evictor.worker = worker := worker_after _ past
  have hidle : s.loops = [] := by
    have hstart : Unstarted (start epoch timeout cache worker courses) := fun _ => rfl
    exact hstart.after past unserved
  have hbegun : Beating s [] begun :=
    Beating.serve tracker (by rw [hworker, enabled]) unserved hidle
  obtain ⟨tasks, notices, hserve⟩ := s.serve_eq tracker
  have hcancelled : begun.cancelled = s.cancelled := by
    show (s.serve tracker).1.cancelled = s.cancelled
    rw [hserve]
  have hnow : begun.now ≤ s.beatStart 0 := by
    show (s.serve tracker).1.now ≤ _
    rw [hserve]
    exact Nat.le_add_right _ _
  obtain ⟨results, hbehind, hnone, hstarts, hstopped⟩ := hbegun.after ms exact
  rw [List.nil_append] at hbehind hstarts hstopped
  refine ⟨results, ⟨hbehind.sweeps, hbehind.runs, hbehind.failures⟩, ?_, ?_, ?_, ?_⟩
  · intro k hk
    exact hstarts k (Nat.zero_le _) hk
  · intro k hge hk
    have hc : behind.cancelled = true := by
      rcases ha : behind.cancelled with - | -
      · exact absurd (hbehind.lt_length_of_due ha hk) (Nat.not_lt.mpr hge)
      · rfl
    obtain ⟨j, hj, hs⟩ := hstopped hc hnow
    exact ⟨j, hj, hs.cancelled, Nat.le_trans hs.now (beatStart_mono s hge)⟩
  · intro j hj hc
    have hsplit := punctual_append begun (ms.take j) (ms.drop j)
    rw [List.take_append_drop, exact] at hsplit
    obtain ⟨hfront, hrest⟩ := Bool.and_eq_true_iff.mp hsplit.symm
    obtain ⟨upTo, hthen, -⟩ := hbegun.after (ms.take j) hfront
    obtain ⟨more, hlast, hfrozen, -⟩ := hthen.after (ms.drop j) hrest
    rw [after_take_drop, hfrozen hc, List.append_nil] at hlast
    show (begun.after ms).sweeps = _
    rw [hlast.sweeps, hthen.sweeps]
  · intro hc
    exact hnone (hcancelled.trans hc)

/-! ### A life of three clears -/

/-- A loop that sleeps three milliseconds first, and then two. -/
def briskWorker : Worker := ⟨true, ⟨⟨3000000, by decide⟩, ⟨2000000, by decide⟩⟩⟩

/-- Three clears of four, one and two milliseconds: the second one fails, and the third one asks for
the cancellation while it is under way. -/
def briskCourses : List Course :=
  [⟨false, 4, none⟩, ⟨false, 1, some (.unavailable "feed" "gone")⟩, ⟨true, 2, none⟩]

/-- All turns up to the third clear and the end of the loop, and some time behind them. -/
def briskLife : List Moment :=
  [.cancelAt 40, .turn, .pass 8, .turn, .pass 14, .turn, .pass 17, .turn, .turn, .pass 30]

/-- The loop begins at 5 and clears at 8, 14 and 17; the failure changes nothing, the third clear is
completed and counted, and there is no fourth. -/
theorem fixed_delay_brisk :
    let s := (start 0 .zero .empty briskWorker briskCourses).after [.pass 5]
    let begun := (s.serve 0).1
    let behind := begun.after briskLife
    (briskWorker.enabled = true ∧ s.evictor.served = false ∧ begun.punctual briskLife = true) ∧
      [s.beatStart 0, s.beatStart 1, s.beatStart 2, s.beatStart 3] = [8, 14, 17, 21] ∧
      ∃ results : List (Except CacheError Nat),
        results.length = 3 ∧ behind.sweeps = s.beats results ∧
          results[1]? = some (.error (.unavailable "feed" "gone")) ∧
          behind.evictor.counters.runs = 3 ∧
          ∃ j ≤ briskLife.length, Stopped s begun briskLife 3 j := by
  intro s begun behind
  have enabled : briskWorker.enabled = true := rfl
  have unserved : s.evictor.served = false := rfl
  have exact : begun.punctual briskLife = true := by decide
  refine ⟨⟨enabled, unserved, exact⟩, by decide, ?_⟩
  obtain ⟨results, ⟨hsweeps, hruns, hfailures⟩, -, hstopped, -, -⟩ :=
    fixed_delay 0 .zero .empty briskWorker briskCourses [.pass 5] briskLife 0 enabled unserved exact
  have hbeats : behind.sweeps = s.beats results := hsweeps
  have hlen : results.length = 3 := by
    rw [← length_beats s results, ← hbeats]
    decide
  refine ⟨results, hlen, hbeats, ?_, ?_, ?_⟩
  · exact hfailures 1 (by rw [hlen]; decide) _ rfl
  · rw [hruns, hlen]
    decide
  · exact hstopped 3 (Nat.le_of_eq hlen) (.inl (by decide))

end CacheWarden.Service
