import CacheWarden.Service
/-!
What a turn can do.

There are five kinds of turns (`Turn`): a task other than the loop does its job, the
loop has its first turn, it clears, it ends, or the tasks that waited for the
cancellation learn of it.  The kinds carry what is known when they happen; above all,
a loop that clears was due, and the token was not cancelled.  Where there is no turn
to take, nothing is due (`turn?_eq_none`).

The clear itself is said once, in `clearCache_eq`.
-/

namespace CacheWarden

/-- The task is the eviction loop. -/
def Task.isLoop (t : Task) : Bool := t.job == .evict

/-- The task has not had a turn yet, or the time for which it waits has come. -/
def Task.isReady (now : Nat) (t : Task) : Bool := t.isNew || t.due?.any (· ≤ now)

namespace Evictor

/-- An enabled loop that was not started yet is started. -/
theorem serve_first {e : Evictor} (enabled : e.worker.enabled = true) (served : e.served = false) :
    e.serve = ({ e with served := true }, true, []) := by
  simp [serve, enabled, served]

/-- A loop that was started is not started again. -/
theorem serve_again {e : Evictor} (served : e.served = true) : ∃ ns, e.serve = (e, false, ns) := by
  unfold serve
  rcases e.worker.enabled with - | - <;> simp [served]

/-- A loop that is switched off is never started. -/
theorem serve_disabled {e : Evictor} (disabled : e.worker.enabled = false) :
    ∃ ns, e.serve = (e, false, ns) := by
  simp [serve, disabled]

@[simp] theorem serve_worker (e : Evictor) : e.serve.1.worker = e.worker := by
  unfold serve
  rcases e.worker.enabled with - | - <;> rcases e.served with - | - <;> rfl

@[simp] theorem serve_counters (e : Evictor) : e.serve.1.counters = e.counters := by
  unfold serve
  rcases e.worker.enabled with - | - <;> rcases e.served with - | - <;> rfl

variable (e : Evictor) (meter : Meter) (result : Except CacheError Nat) (finishedAt : Int)

@[simp] theorem record_worker : (e.record meter result finishedAt).1.worker = e.worker := by
  cases result <;> rfl

@[simp] theorem record_served : (e.record meter result finishedAt).1.served = e.served := by
  cases result <;> rfl

/-- Every clear counts as a run. -/
@[simp] theorem record_runs :
    (e.record meter result finishedAt).1.counters.runs = e.counters.runs + 1 := by
  cases result <;> rfl

/-- The entries that a clear removed. -/
def removed : Except CacheError Nat → Nat
  | .ok n => n
  | .error _ => 0

/-- Every entry that was removed counts as evicted. -/
theorem record_evictedItems :
    (e.record meter result finishedAt).1.counters.evictedItems
      = e.counters.evictedItems + .ofNat (removed result) := by
  cases result with
  | ok n => rfl
  | error err => simp [record, Counters.recordFailure, removed]

end Evictor

namespace Service

variable (s : Service)

/-- What is told in two parts is told one after the other. -/
theorem tell_tell (first others : List Notice) :
    (s.tell first).tell others = s.tell (first ++ others) := by
  simp [tell]

/-- A start changes nothing but the evictor, the tasks and the notices. -/
theorem serve_eq (tracker : TrackerId) :
    ∃ tasks notices,
      (s.serve tracker).1 = { s with evictor := s.evictor.serve.1, tasks, notices } := by
  unfold serve
  rcases s.evictor.serve with ⟨e, - | -, ns⟩ <;> exact ⟨_, _, rfl⟩

/-! ### Clears -/

/-- The course of the next clear. -/
def course : Course := s.courses.headD .smooth

/-- The cache behind the next clear, and the clear's result. -/
def swept : Cache × Except CacheError Nat :=
  match s.course.failure with
  | some e => (s.cache, .error e)
  | none => s.cache.clear Evictor.region

/-- The end of a clear that starts now. -/
def sweepEnd : Nat := s.now + s.course.work

/-- A clear uses up its course and its time. -/
theorem sweep_eq :
    s.sweep =
      ({ s with
          now := s.sweepEnd
          cancelled := s.cancelled || s.course.cancels
          cache := s.swept.1
          courses := s.courses.tail }, s.swept.2) := by
  unfold sweep swept
  show (match s.course.failure with
    | some e => _
    | none => _) = _
  rcases s.course.failure with - | e <;> rfl

/-- A clear is taken down with its result, when it ends. -/
theorem clearCache_eq (scheduled : Bool) :
    s.clearCache scheduled =
      let record := s.evictor.record s.meter s.swept.2 (s.epoch + s.sweepEnd)
      ({ s with
          now := s.sweepEnd
          cancelled := s.cancelled || s.course.cancels
          cache := s.swept.1
          evictor := record.1
          meter := record.2.1
          courses := s.courses.tail
          sweeps := s.sweeps ++ [⟨scheduled, Evictor.region, s.now, s.sweepEnd, s.swept.2⟩]
          notices := s.notices ++ record.2.2 }, s.swept.2) := by
  unfold clearCache
  rw [sweep_eq]

/-- A tick is a clear, behind which the loop sleeps for the delay, whatever came of it. -/
theorem tick_eq (t : Task) :
    ∃ notices, s.tick t = { (s.clearCache true).1 with
      notices
      tasks := s.tasks ++
        [{ t with wait := .until (s.sweepEnd + s.evictor.worker.schedule.delay.millisUp) }] } := by
  unfold tick
  rw [clearCache_eq]
  rcases s.swept.2 with e | n <;> exact ⟨_, rfl⟩

/-- A task other than the loop does nothing, but that it may cancel the token, or interrupt. -/
theorem perform_eq {t : Task} (other : t.isLoop = false) :
    s.perform t =
      { s with
          cancelled := s.cancelled || t.job == .cancel
          interrupted := s.interrupted || t.job == .interrupt } := by
  obtain ⟨tracker, job, wait⟩ := t
  cases job with
  | evict => cases other
  | finish =>
    show s = { s with cancelled := s.cancelled || false, interrupted := s.interrupted || false }
    rw [Bool.or_false, Bool.or_false]
  | cancel =>
    show s.cancel =
      { s with cancelled := s.cancelled || true, interrupted := s.interrupted || false }
    rw [Bool.or_true, Bool.or_false]
    rfl
  | interrupt =>
    show { s with interrupted := true } =
      { s with cancelled := s.cancelled || false, interrupted := s.interrupted || true }
    rw [Bool.or_false, Bool.or_true]

/-! ### The kinds of turns -/

/-- What a turn may make of a service. -/
inductive Turn : Service → Prop
  /-- A task other than the loop does its job. -/
  | chore {t : Task} (other : t.isLoop = false) (mem : t ∈ s.tasks)
      (ready : t.isReady s.now = true) : Turn ((s.drop t).perform t)
  /-- The loop has its first turn. -/
  | wake {t : Task} (mem : t ∈ s.tasks) (loop : t.isLoop = true) (new : t.isNew = true) :
      Turn ((s.drop t).wake t)
  /-- The loop clears. -/
  | tick {t : Task} {due : Nat} (mem : t ∈ s.tasks) (loop : t.isLoop = true)
      (alive : s.cancelled = false) (due_eq : t.due? = some due) (le : due ≤ s.now) :
      Turn ((s.drop t).tick t)
  /-- The loop ends. -/
  | gone {t : Task} (mem : t ∈ s.tasks) (loop : t.isLoop = true) (cancelled : s.cancelled = true)
      (asleep : t.due?.isSome = true) : Turn ((s.drop t).tell [.workerGone Evictor.name])
  /-- The tasks that waited for the cancellation learn of it. -/
  | setOff (cancelled : s.cancelled = true) (patient : s.tasks.any Task.isPatient = true) :
      Turn { s with tasks := s.tasks.map (Task.setOff s.now) }

variable {s}

/-- A new task has a turn of its kind. -/
theorem Turn.of_new {t : Task} (mem : t ∈ s.tasks) (new : t.isNew = true) :
    Turn s ((s.drop t).perform t) := by
  rcases hl : t.isLoop with - | -
  · exact .chore hl mem (by simp [Task.isReady, new])
  · have hjob : t.job = .evict := by simpa [Task.isLoop] using hl
    have hwake : (s.drop t).perform t = (s.drop t).wake t := by simp [perform, hjob, new]
    rw [hwake]
    exact .wake mem hl new

/-- A task that is due has a turn of its kind. -/
theorem Turn.of_due {t : Task} {due : Nat} (mem : t ∈ s.tasks) (due_eq : t.due? = some due)
    (le : due ≤ s.now) (alive : t.isLoop = true → s.cancelled = false) :
    Turn s ((s.drop t).perform t) := by
  rcases hl : t.isLoop with - | -
  · exact .chore hl mem (by simp [Task.isReady, due_eq, le])
  · have hjob : t.job = .evict := by simpa [Task.isLoop] using hl
    -- a task that waits for a time has had its first turn
    have hold : t.isNew = false := by
      rcases hn : t.isNew with - | -
      · rfl
      · have hwait : t.wait = .turn := by simpa [Task.isNew] using hn
        simp [Task.due?, hwait] at due_eq
    have htick : (s.drop t).perform t = (s.drop t).tick t := by simp [perform, hjob, hold]
    rw [htick]
    exact .tick mem hl (alive hl) due_eq le

/-- Every turn is of one of the kinds. -/
theorem Turn.of_turn? {s' : Service} (h : s.turn? = some s') : Turn s s' := by
  unfold turn? at h
  rcases hnew : s.tasks.find? Task.isNew with - | t
  · rw [hnew] at h
    dsimp only at h
    split at h
    · -- the loop sleeps, and the token is cancelled
      rename_i t hc hdozing
      obtain rfl := Option.some.inj h
      have hdoes : t.isDozing = true := List.find?_some hdozing
      obtain ⟨hloop, hasleep⟩ := Bool.and_eq_true_iff.mp hdoes
      exact .gone (List.mem_of_find?_eq_some hdozing) hloop hc hasleep
    · rename_i hawake
      split at h
      · rename_i hpatient
        obtain rfl := Option.some.inj h
        obtain ⟨hc, hp⟩ := Bool.and_eq_true_iff.mp hpatient
        exact .setOff hc hp
      · rcases he : Task.earliest? s.tasks with - | ⟨due, t⟩
        · rw [he] at h
          cases h
        · rw [he] at h
          dsimp only at h
          split at h
          · rename_i hle
            obtain rfl := Option.some.inj h
            obtain ⟨hmem, hdue, -⟩ := Task.earliest?_eq_some he
            refine .of_due hmem hdue hle ?_
            -- a loop that is due sleeps, so it would have ended if the token were cancelled
            intro hloop
            have hdozing : t.isDozing = true := by
              simp only [Task.isDozing, Bool.and_eq_true]
              exact ⟨hloop, by rw [hdue]; rfl⟩
            rcases hf : s.tasks.find? Task.isDozing with - | u
            · exact absurd hdozing (by simpa using List.find?_eq_none.mp hf t hmem)
            · rcases hc : s.cancelled with - | -
              · rfl
              · exact absurd hf (hawake u hc)
          · cases h
  · rw [hnew] at h
    obtain rfl := Option.some.inj h
    exact .of_new (List.mem_of_find?_eq_some hnew) (List.find?_some hnew)

/-- Where there is no turn, no task is new, a cancelled loop is gone, and nothing is due. -/
theorem turn?_eq_none (h : s.turn? = none) :
    (∀ t ∈ s.tasks, t.isNew = false) ∧
      ∀ t ∈ s.tasks, ∀ due, t.due? = some due → s.now < due := by
  unfold turn? at h
  rcases hnew : s.tasks.find? Task.isNew with - | t
  · rw [hnew] at h
    dsimp only at h
    refine ⟨fun t ht => by simpa using List.find?_eq_none.mp hnew t ht, ?_⟩
    intro t ht due hdue
    split at h
    · cases h
    · split at h
      · cases h
      · rcases he : Task.earliest? s.tasks with - | ⟨first, u⟩
        · rw [Task.earliest?_eq_none_iff.mp he t ht] at hdue
          cases hdue
        · rw [he] at h
          dsimp only at h
          split at h
          · cases h
          · rename_i hlate
            obtain ⟨-, -, hfirst⟩ := Task.earliest?_eq_some he
            -- not even the first of the tasks is due
            exact Nat.lt_of_lt_of_le (Nat.lt_of_not_le hlate) (hfirst t ht due hdue)
  · rw [hnew] at h
    cases h

/-- What is due next is due no later than any task. -/
theorem nextDue?_le (s : Service) {t : Task} {time : Nat} (mem : t ∈ s.tasks)
    (due_eq : t.due? = some time) : ∃ due, s.nextDue? = some due ∧ due ≤ time := by
  rcases he : Task.earliest? s.tasks with - | ⟨due, u⟩
  · rw [Task.earliest?_eq_none_iff.mp he t mem] at due_eq
    cases due_eq
  · obtain ⟨-, -, hfirst⟩ := Task.earliest?_eq_some he
    exact ⟨due, by simp [nextDue?, he], hfirst t mem time due_eq⟩

/-- What is due next is a task, and no task is due before. -/
theorem nextDue?_eq_some {due : Nat} (h : s.nextDue? = some due) :
    ∃ t ∈ s.tasks, t.due? = some due ∧ ∀ u ∈ s.tasks, ∀ time, u.due? = some time → due ≤ time := by
  obtain ⟨⟨first, t⟩, hearliest, rfl⟩ := Option.map_eq_some_iff.mp h
  obtain ⟨hmem, hdue, hfirst⟩ := Task.earliest?_eq_some hearliest
  exact ⟨t, hmem, hdue, hfirst⟩

/-- Where there is no turn, what is due next is still to come. -/
theorem now_lt_of_next {due : Nat} (h : s.turn? = none) (next : s.nextDue? = some due) :
    s.now < due := by
  obtain ⟨t, hmem, hdue, -⟩ := nextDue?_eq_some next
  exact (turn?_eq_none h).2 t hmem due hdue

end Service

end CacheWarden
