import CacheWarden.Proofs.Service.Moment
/-!
The eviction loop among the tasks of a service.

Most moments do not touch the loop at all (`Unmoved`): other tasks come and go, the
regions change, the token is cancelled, and the loop waits on.  There is no loop
before it is started (`Unstarted.after`).
-/

namespace CacheWarden.Service

/-! ### The loop among the tasks -/

/-- The tasks that are the eviction loop. -/
def loops (s : Service) : List Task := s.tasks.filter Task.isLoop

theorem loops_drop (s : Service) (t : Task) : (s.drop t).loops = s.loops.erase t :=
  List.erase_filter.symm

theorem loops_spawn (s : Service) (t : Task) :
    (s.spawn t).loops = s.loops ++ if t.isLoop then [t] else [] := by
  unfold loops spawn
  rw [List.filter_append]
  rcases h : t.isLoop with - | - <;> simp [h]

/-- Nothing changed that the loop has to do with, but for the cancellation and the regions. -/
structure Unmoved (s s' : Service) : Prop where
  now : s'.now = s.now
  evictor : s'.evictor = s.evictor
  courses : s'.courses = s.courses
  sweeps : s'.sweeps = s.sweeps
  loops : s'.loops = s.loops
  cancelled : s.cancelled = true → s'.cancelled = true

theorem Unmoved.refl (s : Service) : Unmoved s s := ⟨rfl, rfl, rfl, rfl, rfl, id⟩

/-- A task other than the loop does nothing to it, but that it may cancel the token. -/
theorem unmoved_chore (s : Service) {t : Task} (other : t.isLoop = false) :
    Unmoved s ((s.drop t).perform t) := by
  have hloops : (s.drop t).loops = s.loops := by
    rw [loops_drop]
    -- the task is not among the loops
    refine List.erase_of_not_mem ?_
    intro hmem
    have := (List.mem_filter.mp hmem).2
    rw [other] at this
    cases this
  rw [perform_eq _ other]
  exact ⟨rfl, rfl, rfl, rfl, hloops, fun cancelled => Bool.or_eq_true_iff.mpr (.inl cancelled)⟩

/-- A new task other than the loop does nothing to it. -/
theorem unmoved_spawn (s : Service) {t : Task} (other : t.isLoop = false) :
    Unmoved s (s.spawn t) := by
  refine ⟨rfl, rfl, rfl, rfl, ?_, id⟩
  rw [loops_spawn, other]
  simp

/-- A loop that was started is not started again. -/
theorem unmoved_serve (s : Service) (tracker : TrackerId) (served : s.evictor.served = true) :
    Unmoved s (s.serve tracker).1 := by
  obtain ⟨ns, hserve⟩ := Evictor.serve_again served
  unfold serve
  rw [hserve]
  exact ⟨rfl, rfl, rfl, rfl, rfl, id⟩

/-- A task that learns of the cancellation keeps its job. -/
theorem isLoop_comp_setOff (now : Nat) : Task.isLoop ∘ Task.setOff now = Task.isLoop := by
  funext t
  obtain ⟨tracker, job, wait⟩ := t
  rcases wait with - | time | (- | rest) | - <;> rfl

/-- The loop does not wait for the cancellation, so it does not learn of it that way. -/
theorem loops_setOff (s : Service) (now : Nat)
    (h : ∀ t ∈ s.loops, t.setOff now = t) :
    loops { s with tasks := s.tasks.map (Task.setOff now) } = s.loops := by
  show (s.tasks.map (Task.setOff now)).filter Task.isLoop = _
  rw [List.filter_map, isLoop_comp_setOff]
  conv => rhs; rw [← List.map_id s.loops]
  exact List.map_congr_left h

/-! ### The number of loops -/

/-- No turn makes a loop more: one that goes on takes its own place. -/
theorem Turn.length_loops_le {s s' : Service} (ht : Turn s s') :
    s'.loops.length ≤ s.loops.length := by
  -- a loop that has a turn leaves its place to the one that it goes on as
  have hplace {t : Task} (mem : t ∈ s.tasks) (loop : t.isLoop = true) (u : Task) :
      ((s.drop t).loops ++ [u]).length = s.loops.length := by
    have hmem : t ∈ s.loops := List.mem_filter.mpr ⟨mem, loop⟩
    have hpos : 0 < s.loops.length := List.length_pos_of_mem hmem
    rw [loops_drop, List.length_append, List.length_erase_of_mem hmem, List.length_singleton]
    omega
  cases ht with
  | chore other => exact Nat.le_of_eq (congrArg List.length (unmoved_chore s other).loops)
  | @wake t mem loop new =>
    refine Nat.le_of_eq ?_
    show (loops (spawn ((s.drop t).tell _) _)).length = _
    rw [loops_spawn]
    show ((s.drop t).loops ++ if t.isLoop then _ else _).length = _
    rw [if_pos loop]
    exact hplace mem loop _
  | @tick t due mem loop alive due_eq le =>
    obtain ⟨notices, htick⟩ := tick_eq (s.drop t) t
    refine Nat.le_of_eq ?_
    rw [htick, clearCache_eq]
    show (((s.drop t).tasks ++ [_]).filter Task.isLoop).length = _
    rw [List.filter_append, List.filter_cons_of_pos (by exact loop), List.filter_nil]
    exact hplace mem loop _
  | @gone t mem loop cancelled =>
    show (s.drop t).loops.length ≤ _
    rw [loops_drop]
    exact List.length_erase_le
  | setOff cancelled =>
    refine Nat.le_of_eq ?_
    show ((s.tasks.map (Task.setOff s.now)).filter Task.isLoop).length = _
    rw [List.filter_map, isLoop_comp_setOff, List.length_map]
    rfl

/-- Nothing but a start makes a loop more. -/
theorem length_loops_meet_le (s : Service) {m : Moment} (h : m.isServe = false) :
    (s.meet m).1.loops.length ≤ s.loops.length := by
  cases m with
  | serve _ => cases h
  | turn =>
    show (s.turn?.getD s).loops.length ≤ _
    rcases ht : s.turn? with - | s'
    · exact Nat.le_refl _
    · exact (Turn.of_turn? ht).length_loops_le
  | clear =>
    show (s.clearCache false).1.loops.length ≤ _
    rw [clearCache_eq]
    exact Nat.le_refl _
  | pass _ | put _ _ _ | get _ _ | clearAll _ | cancel => exact Nat.le_refl _
  | cancelAt _ | interruptAt _ | spawn _ _ =>
    exact Nat.le_of_eq (congrArg List.length (unmoved_spawn s rfl).loops)

/-! ### Before the start -/

/-- No loop is there unless it was started. -/
def Unstarted (s : Service) : Prop := s.evictor.served = false → s.loops = []

/-- Where there is no loop, no turn makes one. -/
theorem Turn.idle {s s' : Service} (ht : Turn s s') (h : s.loops = []) : s'.loops = [] := by
  -- a loop that has a turn is there
  have hnone {t : Task} (mem : t ∈ s.tasks) (loop : t.isLoop = true) : False := by
    have hmem : t ∈ s.loops := List.mem_filter.mpr ⟨mem, loop⟩
    rw [h] at hmem
    cases hmem
  cases ht with
  | chore other => exact (unmoved_chore s other).loops.trans h
  | wake mem loop _ | tick mem loop _ _ _ | gone mem loop _ => exact (hnone mem loop).elim
  | setOff _ _ => rw [loops_setOff s s.now (by simp [h]), h]

/-- A turn starts no loop. -/
theorem Unstarted.turn {s s' : Service} (h : Unstarted s) (ht : Turn s s') : Unstarted s' := by
  intro hs
  exact ht.idle (h (ht.evictor.2.symm.trans hs))

/-- Nothing but a start starts a loop. -/
theorem Unstarted.meet {s : Service} (h : Unstarted s) (m : Moment) :
    Unstarted (s.meet m).1 := by
  have hspawn {t : Task} (other : t.isLoop = false) : Unstarted (s.spawn t) := by
    intro hs
    rw [(unmoved_spawn s other).loops]
    exact h hs
  cases m with
  | turn =>
    show Unstarted (s.turn?.getD s)
    rcases ht : s.turn? with - | s'
    · exact h
    · exact h.turn (.of_turn? ht)
  | serve tracker =>
    show Unstarted (s.serve tracker).1
    rcases hs : s.evictor.served with - | -
    · rcases he : s.evictor.worker.enabled with - | -
      · obtain ⟨ns, hserve⟩ := Evictor.serve_disabled he
        unfold serve
        rw [hserve]
        exact h
      · unfold serve
        rw [Evictor.serve_first he hs]
        intro hs'
        cases hs'
    · have hu := unmoved_serve s tracker hs
      intro hs'
      rw [hu.evictor, hs] at hs'
      cases hs'
  | clear =>
    show Unstarted (s.clearCache false).1
    rw [clearCache_eq]
    intro hs
    exact h ((Evictor.record_served ..).symm.trans hs)
  | pass _ | put _ _ _ | get _ _ | clearAll _ | cancel => exact h
  | cancelAt _ | interruptAt _ | spawn _ _ => exact hspawn rfl

/-- A service that was never started has no loop, whatever has happened to it. -/
theorem Unstarted.after {s : Service} (h : Unstarted s) (ms : List Moment) :
    Unstarted (s.after ms) := by
  induction ms generalizing s with
  | nil => exact h
  | cons m ms ih => exact ih (h.meet m)

end CacheWarden.Service
