import CacheWarden.Proofs.Eviction.Books
import CacheWarden.Proofs.Service.Moment
/-!
What a service tells of its clears, on any history.

A moment either clears, and then the clear is entered in the books; or it leaves the
books as they are, whatever else it does and tells (`Recorded`).  So the books of a
service hold what its clears amount to, and nothing else (`accounts_agree`): those of
the loop and those that callers ask for, in the order in which they were done.
-/

namespace CacheWarden

/-- The line tells of a clear that was done, or of one that failed. -/
def Notice.isOfClear (n : Notice) : Bool :=
  ["cache region cleared", "eviction attempt failed", "scheduled eviction failed"].contains
    n.record.message

/-- The evictor is not started, or its loop begins or ends. -/
def Notice.isOfLoop : Notice → Bool
  | .workerDisabled _ _ | .workerServing _ | .workerUpped _ _ _ _ | .workerGone _ => true
  | _ => false

theorem Notice.isOfClear_of_isOfLoop {n : Notice} (h : n.isOfLoop = true) :
    n.isOfClear = false := by
  unfold isOfLoop at h
  split at h
  · rfl
  · rfl
  · rfl
  · rfl
  · cases h

namespace Service

/-- The books of a service: the counters of its evictor, its meter, and what its log tells of
clears. -/
def books (s : Service) : Books := ⟨s.evictor.counters, s.meter, s.notices.filter Notice.isOfClear⟩

/-! ### One moment -/

/-- What a moment may take down: nothing, but that the loop may tell of itself; or one clear. -/
inductive Recorded (s s' : Service) : Prop
  | kept (epoch : s'.epoch = s.epoch) (counters : s'.evictor.counters = s.evictor.counters)
      (meter : s'.meter = s.meter) (sweeps : s'.sweeps = s.sweeps)
      (notices : ∃ ns, s'.notices = s.notices ++ ns ∧ ∀ n ∈ ns, n.isOfLoop = true)
  | cleared (w : Sweep) (epoch : s'.epoch = s.epoch) (sweeps : s'.sweeps = s.sweeps ++ [w])
      (result : w.result = s.swept.2)
      (counters : s'.evictor.counters
        = (s.evictor.record s.meter w.result (s.epoch + w.stop)).1.counters)
      (meter : s'.meter = (s.evictor.record s.meter w.result (s.epoch + w.stop)).2.1)
      (notices : s'.notices = s.notices ++
        ((s.evictor.record s.meter w.result (s.epoch + w.stop)).2.2 ++ w.outcry))

variable {s s' : Service}

/-- Nothing is told, and nothing taken down. -/
theorem Recorded.silent (epoch : s'.epoch = s.epoch)
    (counters : s'.evictor.counters = s.evictor.counters) (meter : s'.meter = s.meter)
    (sweeps : s'.sweeps = s.sweeps) (notices : s'.notices = s.notices) : Recorded s s' :=
  .kept epoch counters meter sweeps ⟨[], by rw [notices, List.append_nil], nofun⟩

/-- A clear is taken down as one, with its result. -/
theorem recorded_clearCache (s : Service) : Recorded s (s.clearCache false).1 := by
  rw [clearCache_eq]
  refine .cleared ⟨false, Evictor.region, s.now, s.sweepEnd, s.swept.2⟩ rfl rfl rfl rfl rfl ?_
  -- a caller's clear is not cried out by the loop
  have hcry : (⟨false, Evictor.region, s.now, s.sweepEnd, s.swept.2⟩ : Sweep).outcry = [] := rfl
  rw [hcry, List.append_nil]

/-- So is a clear of the loop. -/
theorem recorded_tick (s : Service) (t : Task) : Recorded s (s.tick t) := by
  have hclear := s.clearCache_eq true
  unfold tick
  rw [hclear]
  rcases hr : s.swept.2 with e | n
  · exact .cleared ⟨true, Evictor.region, s.now, s.sweepEnd, .error e⟩ rfl rfl hr.symm rfl rfl
      (List.append_assoc ..)
  · refine .cleared ⟨true, Evictor.region, s.now, s.sweepEnd, .ok n⟩ rfl rfl hr.symm rfl rfl ?_
    have hcry : (⟨true, Evictor.region, s.now, s.sweepEnd, .ok n⟩ : Sweep).outcry = [] := rfl
    rw [hcry, List.append_nil]
    rfl

theorem Turn.recorded (ht : Turn s s') : Recorded s s' := by
  cases ht with
  | chore other =>
    rw [perform_eq _ other]
    exact .silent rfl rfl rfl rfl rfl
  | @wake t mem loop new =>
    refine .kept rfl rfl rfl rfl ⟨[s.evictor.upped], rfl, ?_⟩
    simp [Evictor.upped, Notice.isOfLoop]
  | @tick t due mem loop alive due_eq le =>
    cases recorded_tick (s.drop t) t with
    | kept epoch counters meter sweeps notices => exact .kept epoch counters meter sweeps notices
    | cleared w epoch sweeps result counters meter notices =>
      exact .cleared w epoch sweeps result counters meter notices
  | gone _ _ _ =>
    refine .kept rfl rfl rfl rfl ⟨[.workerGone Evictor.name], rfl, ?_⟩
    simp [Notice.isOfLoop]
  | setOff _ => exact .silent rfl rfl rfl rfl rfl

/-- A start tells at most why there is none. -/
theorem recorded_serve (s : Service) (tracker : TrackerId) : Recorded s (s.serve tracker).1 := by
  unfold serve Evictor.serve
  rcases s.evictor.worker.enabled with - | -
  · exact .kept rfl rfl rfl rfl ⟨_, rfl, by simp [Notice.isOfLoop]⟩
  · rcases s.evictor.served with - | -
    · exact .silent rfl rfl rfl rfl (List.append_nil _)
    · exact .kept rfl rfl rfl rfl ⟨_, rfl, by simp [Notice.isOfLoop]⟩

/-- Every moment takes down one clear or none. -/
theorem recorded_meet (s : Service) (m : Moment) : Recorded s (s.meet m).1 := by
  cases m with
  | turn =>
    show Recorded s (s.turn?.getD s)
    rcases ht : s.turn? with - | s'
    · exact .silent rfl rfl rfl rfl rfl
    · exact (Turn.of_turn? ht).recorded
  | serve tracker => exact s.recorded_serve tracker
  | clear => exact s.recorded_clearCache
  | pass _ | put _ _ _ | get _ _ | clearAll _ | cancel | cancelAt _ | interruptAt _ | spawn _ _ =>
    exact .silent rfl rfl rfl rfl rfl

/-! ### The books -/

/-- All that is told of a clear is of a clear. -/
theorem isOfClear_of_record (e : Evictor) (meter : Meter) (w : Sweep) (finishedAt : Int) :
    ∀ n ∈ (e.record meter w.result finishedAt).2.2 ++ w.outcry, n.isOfClear = true := by
  obtain ⟨scheduled, region, start, stop, result⟩ := w
  intro n hn
  rcases result with err | items
  · rcases scheduled with - | -
    · obtain rfl := List.mem_singleton.mp hn
      rfl
    · -- the loop says so besides
      rcases List.mem_cons.mp hn with rfl | hn
      · rfl
      · obtain rfl := List.mem_singleton.mp hn
        rfl
  · obtain rfl : n = .regionCleared Evictor.name Evictor.region items := by
      rcases scheduled with - | - <;> exact List.mem_singleton.mp hn
    rfl

/-- The instants of a service count from the same start. -/
theorem Recorded.epoch_eq (h : Recorded s s') : s'.epoch = s.epoch := by
  cases h with
  | kept epoch _ _ _ _ => exact epoch
  | cleared _ epoch _ _ _ _ _ => exact epoch

/-- A moment enters its clear in the books, if it has one. -/
theorem Recorded.books (h : Recorded s s') :
    s'.sweeps = s.sweeps ∧ s'.books = s.books ∨
      ∃ w, s'.sweeps = s.sweeps ++ [w] ∧ s'.books = s.books.enter s.evictor.worker s.epoch w := by
  cases h with
  | kept epoch counters meter sweeps notices =>
    obtain ⟨ns, htold, hloop⟩ := notices
    have hnone : ns.filter Notice.isOfClear = [] := by
      rw [List.filter_eq_nil_iff]
      intro n hn
      simp [Notice.isOfClear_of_isOfLoop (hloop n hn)]
    refine .inl ⟨sweeps, ?_⟩
    unfold Service.books
    rw [counters, meter, htold, List.filter_append, hnone, List.append_nil]
  | cleared w epoch sweeps result counters meter notices =>
    refine .inr ⟨w, sweeps, ?_⟩
    unfold Service.books
    rw [counters, meter, notices, List.filter_append,
      List.filter_eq_self.mpr (isOfClear_of_record _ _ _ _)]
    unfold Books.enter
    rcases w.result with e | n <;> rfl

/-- The books of a service hold what its clears amount to. -/
def Accounted (epoch : Int) (s : Service) : Prop := s.epoch = epoch ∧ Tally epoch s.sweeps s.books

theorem Accounted.meet {epoch : Int} (h : Accounted epoch s) (m : Moment) :
    Accounted epoch (s.meet m).1 := by
  obtain ⟨hepoch, htally⟩ := h
  have hr := s.recorded_meet m
  refine ⟨hr.epoch_eq.trans hepoch, ?_⟩
  -- either nothing is entered, or the one clear of the moment
  rcases hr.books with ⟨hsweeps, hbooks⟩ | ⟨w, hsweeps, hbooks⟩
  · rw [hsweeps, hbooks]
    exact htally
  · rw [hsweeps, hbooks, hepoch]
    exact htally.enter _ w

theorem Accounted.after {epoch : Int} (h : Accounted epoch s) (ms : List Moment) :
    Accounted epoch (s.after ms) := by
  induction ms generalizing s with
  | nil => exact h
  | cons m ms ih => exact ih (h.meet m)

/-- **The accounts agree.**  Whatever results a manager of regions may give for clears, the books
in which they are entered hold what they amount to.  And so do the books of a service, of all the
clears of its loop and of callers, at any point of any life; each clear gives back the manager's
result as it is, which is the failure of its course or else what the cache tells of the region, and
adds one with that result. -/
theorem accounts_agree (epoch : Int) (worker : Worker) :
    (∀ ws : List Sweep, Tally epoch ws (Books.empty.keep worker epoch ws)) ∧
      ∀ (timeout : Span) (cache : Cache) (courses : List Course) (ms : List Moment),
        let s := (start epoch timeout cache worker courses).after ms
        Tally epoch s.sweeps s.books ∧
          ∀ scheduled, ∃ w : Sweep,
            (∀ e, s.course.failure = some e → w.result = .error e) ∧
              (s.course.failure = none → w.result = (s.cache.clear Evictor.region).2) ∧
              (s.clearCache scheduled).2 = w.result ∧ w.scheduled = scheduled ∧
              (s.clearCache scheduled).1.sweeps = s.sweeps ++ [w] := by
  refine ⟨Tally.keep worker epoch, ?_⟩
  intro timeout cache courses ms s
  have hstart : Accounted epoch (start epoch timeout cache worker courses) :=
    ⟨rfl, Tally.empty epoch⟩
  refine ⟨(hstart.after ms).2, ?_⟩
  intro scheduled
  rw [clearCache_eq]
  refine ⟨⟨scheduled, Evictor.region, s.now, s.sweepEnd, s.swept.2⟩, ?_, ?_, rfl, rfl, rfl⟩
  · intro e he
    simp only [swept, he]
  · intro hnone
    simp only [swept, hnone]

end Service

end CacheWarden
