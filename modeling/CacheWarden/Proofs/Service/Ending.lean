import CacheWarden.Proofs.Service.Account
import CacheWarden.Proofs.Service.Loop
import CacheWarden.Service.Closing
/-!
The ends of the tasks of a service that is cancelled.

From the cancellation on it is settled when each task ends (`Task.ending?`): the loop
at once, and any other when its wait is over.  For the loop clears no more, so that
nothing moves the clock but its own jumps, and these do not pass by a task.  Whatever
has its turn, and wherever the clock jumps, the tasks that are still running at a
later time are the same (`Winding.running`).
-/

namespace CacheWarden

namespace Task

/-- When the task ends if the service is cancelled now, if it ever does. -/
def ending? (now : Nat) (t : Task) : Option Nat :=
  match t.wait with
  | .turn => some now
  | .until time => some (if t.isLoop then now else max now time)
  | .cancellation rest => rest.map fun rest => if t.isLoop then now else now + rest
  | .forever => none

/-- The task is still running at a time if the service is cancelled now. -/
def outlasts (now time : Nat) (t : Task) : Bool := (t.ending? now).all (time ≤ ·)

/-- A task that ends now is not running at a later time. -/
theorem outlasts_of_ending? {now time : Nat} {t : Task} (h : t.ending? now = some now)
    (later : now < time) : t.outlasts now time = false := by
  simp [outlasts, h, later]

/-- A loop that sleeps ends now, whatever it sleeps for. -/
theorem ending?_of_asleep {t : Task} (now : Nat) (loop : t.isLoop = true)
    (asleep : t.due?.isSome = true) : t.ending? now = some now := by
  obtain ⟨tracker, job, wait⟩ := t
  cases wait with
  | «until» time =>
    show some (if Task.isLoop _ then now else _) = some now
    rw [if_pos loop]
  | turn | cancellation _ | forever => cases asleep

/-- A task that is ready ends now, as it has its turn; so does a loop. -/
theorem ending?_of_isReady {now : Nat} {t : Task} (h : t.isReady now = true) :
    t.ending? now = some now := by
  obtain ⟨tracker, job, wait⟩ := t
  cases wait with
  | turn => rfl
  | «until» time =>
    have hdue : time ≤ now := by simpa [isReady, isNew, due?] using h
    simp [ending?, Nat.max_eq_left hdue]
  | cancellation _ | forever => simp [isReady, isNew, due?] at h

/-- A task that learns of the cancellation ends as it did. -/
theorem ending?_setOff (now : Nat) (t : Task) : (t.setOff now).ending? now = t.ending? now := by
  obtain ⟨tracker, job, wait⟩ := t
  rcases wait with - | time | (- | rest) | -
  · rfl
  · rfl
  · rfl
  · have hmax : max now (now + rest) = now + rest := Nat.max_eq_right (Nat.le_add_right _ _)
    show some (if job == .evict then now else max now (now + rest)) = _
    rw [hmax]
    rfl
  · rfl

@[simp] theorem tracker_setOff (now : Nat) (t : Task) : (t.setOff now).tracker = t.tracker := by
  obtain ⟨tracker, job, wait⟩ := t
  rcases wait with - | time | (- | rest) | - <;> rfl

end Task

namespace Service

variable {s s' : Service}

/-! ### Where there is no turn -/

/-- There is no turn exactly where no task is ready, and behind the cancellation none sleeps as the
loop does or waits for it. -/
theorem turn?_eq_none_iff :
    s.turn? = none ↔ (∀ t ∈ s.tasks, t.isReady s.now = false) ∧
      (s.cancelled = true → ∀ t ∈ s.tasks, t.isDozing = false ∧ t.isPatient = false) := by
  constructor
  · intro h
    obtain ⟨hnew, hdue⟩ := turn?_eq_none h
    refine ⟨?_, ?_⟩
    · intro t ht
      rcases hd : t.due? with - | due
      · simp [Task.isReady, hnew t ht, hd]
      · simp [Task.isReady, hnew t ht, hd, hdue t ht due hd]
    · intro hc
      have hfind : s.tasks.find? Task.isNew = none := by
        rw [List.find?_eq_none]
        intro t ht
        simp [hnew t ht]
      unfold turn? at h
      rw [hfind, hc] at h
      rcases hdoze : s.tasks.find? Task.isDozing with - | t
      · rw [hdoze] at h
        rcases hp : s.tasks.any Task.isPatient with - | -
        · intro t ht
          exact ⟨by simpa using List.find?_eq_none.mp hdoze t ht,
            by simpa using List.any_eq_false.mp hp t ht⟩
        · simp [hp] at h
      · rw [hdoze] at h
        cases h
  · rintro ⟨hready, hcalm⟩
    rcases ht : s.turn? with - | u
    · rfl
    · -- whatever had a turn would be ready, or learn of the cancellation
      have hnew {t : Task} (mem : t ∈ s.tasks) (new : t.isNew = true) : False := by
        have := hready t mem
        simp [Task.isReady, new] at this
      cases Turn.of_turn? ht with
      | chore other mem ready =>
        rw [hready _ mem] at ready
        cases ready
      | wake mem loop new => exact (hnew mem new).elim
      | @tick t due mem loop alive due_eq le =>
        have := hready t mem
        simp [Task.isReady, due_eq, le] at this
      | @gone t mem loop cancelled asleep =>
        obtain ⟨hdoze, -⟩ := hcalm cancelled t mem
        have hloop : (t.job == .evict) = true := loop
        simp [Task.isDozing, hloop, asleep] at hdoze
      | setOff cancelled patient =>
        obtain ⟨t, hmem, hp⟩ := List.any_eq_true.mp patient
        rw [(hcalm cancelled t hmem).2] at hp
        cases hp

/-- Behind the cancellation, where there is no turn, each task waits for a later time, or for
nothing. -/
theorem wait_of_calm (h : s.turn? = none) (cancelled : s.cancelled = true) {t : Task}
    (mem : t ∈ s.tasks) :
    t.wait = .forever ∨ t.isLoop = false ∧ ∃ time, t.wait = .until time ∧ s.now < time := by
  obtain ⟨hready, hcalm⟩ := turn?_eq_none_iff.mp h
  have hr := hready t mem
  obtain ⟨hd, hp⟩ := hcalm cancelled t mem
  obtain ⟨tracker, job, wait⟩ := t
  cases wait with
  | turn => simp [Task.isReady, Task.isNew] at hr
  | «until» time =>
    refine .inr ⟨by simpa [Task.isDozing, Task.due?, Task.isLoop] using hd, time, rfl, ?_⟩
    simpa [Task.isReady, Task.isNew, Task.due?] using hr
  | cancellation rest => simp [Task.isPatient] at hp
  | forever => exact .inl rfl

/-! ### The tasks that are still running -/

/-- The ends of the tasks of a tracker if the service is cancelled now; none for a task that never
ends. -/
def endings (s : Service) (tracker : TrackerId) : List (Option Nat) :=
  (s.tasks.filter (·.tracker == some tracker)).map (Task.ending? s.now)

/-- Those of them that are still to come at a time. -/
def running (s : Service) (tracker : TrackerId) (time : Nat) : List (Option Nat) :=
  (s.endings tracker).filter (·.all (time ≤ ·))

variable (tracker : TrackerId) (time : Nat)

theorem length_endings (s : Service) : (s.endings tracker).length = s.pending tracker := by
  rw [endings, List.length_map, pending, List.countP_eq_length_filter]

/-- The tasks that are still running, and their ends. -/
theorem running_eq (s : Service) :
    s.running tracker time =
      (s.tasks.filter fun t => t.tracker == some tracker && t.outlasts s.now time).map
        (Task.ending? s.now) := by
  rw [running, endings, List.filter_map, List.filter_filter]
  congr 1
  refine List.filter_congr fun t _ => ?_
  rw [Bool.and_comm]
  rfl

/-- A task that ends now is not missed later. -/
theorem running_drop (s : Service) {t : Task} (ends : t.ending? s.now = some s.now)
    (later : s.now < time) : (s.drop t).running tracker time = s.running tracker time := by
  have hover := Task.outlasts_of_ending? ends later
  rw [running_eq, running_eq]
  show ((s.tasks.erase t).filter fun u => u.tracker == some tracker && u.outlasts s.now time).map _
    = _
  rw [← List.erase_filter, List.erase_of_not_mem]
  · rfl
  · intro hmem
    have hout := (List.mem_filter.mp hmem).2
    rw [hover, Bool.and_false] at hout
    cases hout

/-- Nor is it seen later. -/
theorem running_spawn (s : Service) {t : Task} (ends : t.ending? s.now = some s.now)
    (later : s.now < time) : (s.spawn t).running tracker time = s.running tracker time := by
  have hover := Task.outlasts_of_ending? ends later
  rw [running_eq, running_eq]
  show ((s.tasks ++ [t]).filter fun u => u.tracker == some tracker && u.outlasts s.now time).map _
    = _
  rw [List.filter_append, List.filter_cons_of_neg (by simp [hover]), List.filter_nil,
    List.append_nil]
  rfl

theorem running_setOff (s : Service) :
    ({ s with tasks := s.tasks.map (Task.setOff s.now) } : Service).running tracker time
      = s.running tracker time := by
  rw [running, running]
  congr 1
  show ((s.tasks.map (Task.setOff s.now)).filter _).map (Task.ending? s.now) = _
  rw [List.filter_map, List.map_map]
  unfold endings
  have hends : Task.ending? s.now ∘ Task.setOff s.now = Task.ending? s.now := by
    funext t
    exact t.ending?_setOff s.now
  have htracked : (fun t : Task => t.tracker == some tracker) ∘ Task.setOff s.now
      = fun t => t.tracker == some tracker := by
    funext t
    simp
  rw [hends, htracked]

/-- Where there is no turn, the ends are the same up to the time that is due next. -/
theorem endings_pass (h : s.turn? = none) (cancelled : s.cancelled = true) {now : Nat}
    (inTime : ∀ t ∈ s.tasks, ∀ due, t.due? = some due → now ≤ due) :
    ({ s with now } : Service).endings tracker = s.endings tracker := by
  unfold endings
  apply List.map_congr_left
  intro t ht
  have hmem := (List.mem_filter.mp ht).1
  -- a task that waits for a time ends at that time, before the jump and behind it
  rcases wait_of_calm h cancelled hmem with hwait | ⟨hloop, time, hwait, hlate⟩
  · simp [Task.ending?, hwait]
  · have hdue := inTime t hmem time (by simp [Task.due?, hwait])
    simp [Task.ending?, hwait, hloop, Nat.max_eq_right hdue,
      Nat.max_eq_right (Nat.le_of_lt hlate)]

/-! ### What no turn changes behind the cancellation -/

/-- What a service works on: all but its clock, its token, its tasks and trackers, and what it
told. -/
def core (s : Service) : Service :=
  { s with now := 0, cancelled := true, interrupted := false, tasks := [], closed := [],
           notices := [] }

/-- The second service may come of the first, which is cancelled: the tasks that are still running
later are the same, and nothing else was done but that the loop began or ended. -/
structure Winding (s s' : Service) : Prop where
  core : s'.core = s.core
  cancelled : s'.cancelled = true
  closed : s'.closed = s.closed
  now : s.now ≤ s'.now
  told : ∃ ns, s'.notices = s.notices ++ ns ∧ ∀ n ∈ ns, n.isOfLoop = true
  running : ∀ tracker time, s'.now < time → s'.running tracker time = s.running tracker time

namespace Winding

theorem refl (cancelled : s.cancelled = true) : Winding s s :=
  ⟨rfl, cancelled, rfl, Nat.le_refl _, ⟨[], (List.append_nil _).symm, nofun⟩, fun _ _ _ => rfl⟩

theorem trans {s'' : Service} (h : Winding s s') (h' : Winding s' s'') : Winding s s'' where
  core := h'.core.trans h.core
  cancelled := h'.cancelled
  closed := h'.closed.trans h.closed
  now := Nat.le_trans h.now h'.now
  told := by
    obtain ⟨ns, htold, hns⟩ := h.told
    obtain ⟨ns', htold', hns'⟩ := h'.told
    refine ⟨ns ++ ns', ?_, ?_⟩
    · rw [htold', htold, List.append_assoc]
    · intro n hn
      rcases List.mem_append.mp hn with hn | hn
      · exact hns n hn
      · exact hns' n hn
  running := by
    intro tracker time later
    rw [h'.running tracker time later,
      h.running tracker time (Nat.lt_of_le_of_lt h'.now later)]

end Winding

/-- No turn takes time behind the cancellation, and none changes what is running later. -/
theorem Turn.winding (ht : Turn s s') (cancelled : s.cancelled = true) :
    Winding s s' ∧ s'.now = s.now := by
  have hsilent (u : Service) : ∃ ns, u.notices = u.notices ++ ns ∧ ∀ n ∈ ns, n.isOfLoop = true :=
    ⟨[], (List.append_nil _).symm, nofun⟩
  cases ht with
  | @chore t other mem ready =>
    have hends := Task.ending?_of_isReady ready
    rw [perform_eq _ other]
    refine ⟨⟨rfl, ?_, rfl, Nat.le_refl _, hsilent s, ?_⟩, rfl⟩
    · exact Bool.or_eq_true_iff.mpr (.inl cancelled)
    · exact fun tracker time later => running_drop tracker time s hends later
  | @wake t mem loop new =>
    have hready : t.isReady s.now = true := by simp [Task.isReady, new]
    have hends := Task.ending?_of_isReady hready
    refine ⟨⟨rfl, cancelled, rfl, Nat.le_refl _, ⟨[s.evictor.upped], rfl, ?_⟩, ?_⟩, rfl⟩
    · simp [Evictor.upped, Notice.isOfLoop]
    · -- the loop falls asleep, and so ends as it would have ended awake
      intro tracker time later
      refine (running_spawn tracker time ((s.drop t).tell [s.evictor.upped]) ?_ later).trans ?_
      · exact Task.ending?_of_asleep s.now loop rfl
      · exact running_drop tracker time s hends later
  | tick mem loop alive =>
    -- the loop clears no more
    rw [cancelled] at alive
    cases alive
  | @gone t mem loop _ asleep =>
    have hends := Task.ending?_of_asleep s.now loop asleep
    refine ⟨⟨rfl, cancelled, rfl, Nat.le_refl _, ⟨[.workerGone Evictor.name], rfl, ?_⟩, ?_⟩, rfl⟩
    · simp [Notice.isOfLoop]
    · exact fun tracker time later => running_drop tracker time s hends later
  | setOff _ _ =>
    exact ⟨⟨rfl, cancelled, rfl, Nat.le_refl _, hsilent s,
      fun tracker time _ => running_setOff tracker time s⟩, rfl⟩

/-- The clock jumps to what is due next, and passes by nothing. -/
theorem winding_pass (h : s.turn? = none) (cancelled : s.cancelled = true) {due : Nat}
    (next : s.nextDue? = some due) : Winding s { s with now := due } ∧ s.now < due := by
  obtain ⟨-, -, -, hfirst⟩ := nextDue?_eq_some next
  have hlate : s.now < due := now_lt_of_next h next
  refine ⟨⟨rfl, cancelled, rfl, Nat.le_of_lt hlate, ⟨[], (List.append_nil _).symm, nofun⟩, ?_⟩,
    hlate⟩
  -- all ends are where they were, whatever the later time
  intro tracker time _
  unfold running
  rw [endings_pass tracker h cancelled hfirst]

end Service

end CacheWarden
