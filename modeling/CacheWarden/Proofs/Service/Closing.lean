import CacheWarden.Proofs.Service.Ending
import Mathlib
/-!
What a closing comes to.

Whoever waits for the tasks of a tracker does so until one of two things: none of them
is left, or none of them ends before the deadline (`Awaited`).  That the wait is not
given up before is a matter of counting: each task takes two turns at most
(`Task.effort`), and behind each jump of the clock there is a turn.

`close_truthful` says what comes of it in the terms of the service that was closed,
by the ends that its tasks have from there on.  Of what happens in between nothing
counts but that (`Truthful.of_winding`), so whoever lets some of it happen before,
closes with the same result.
-/

namespace CacheWarden

namespace Task

/-- The number of turns that the task takes at most, once the token is cancelled. -/
def effort (t : Task) : Nat :=
  match t.wait with
  | .turn | .cancellation _ => 2
  | .until _ => 1
  | .forever => 0

theorem effort_le (t : Task) : t.effort ≤ 2 := by
  obtain ⟨tracker, job, wait⟩ := t
  cases wait with
  | turn | «until» _ | cancellation _ | forever => simp [effort]

/-- A task that is ready has a turn before it. -/
theorem effort_pos_of_isReady {now : Nat} {t : Task} (h : t.isReady now = true) :
    0 < t.effort := by
  obtain ⟨tracker, job, wait⟩ := t
  cases wait with
  | turn | «until» _ => simp [effort]
  | cancellation _ | forever => simp [isReady, isNew, due?] at h

/-- To learn of the cancellation takes a turn. -/
theorem effort_setOff_le (now : Nat) (t : Task) : (t.setOff now).effort ≤ t.effort := by
  obtain ⟨tracker, job, wait⟩ := t
  rcases wait with - | time | (- | rest) | - <;> simp [setOff, effort]

theorem effort_setOff_lt {now : Nat} {t : Task} (h : t.isPatient = true) :
    (t.setOff now).effort < t.effort := by
  obtain ⟨tracker, job, wait⟩ := t
  rcases wait with - | time | (- | rest) | -
  · cases h
  · cases h
  · simp [setOff, effort]
  · simp [setOff, effort]
  · cases h

end Task

/-- A span that is not nothing takes a millisecond at least. -/
theorem Span.millisUp_pos {s : Span} (h : s.isZero = false) : 0 < s.millisUp := by
  have hpos : 0 < s.nanos := by
    simpa [isZero, Nat.pos_iff_ne_zero] using h
  refine Nat.div_pos ?_ (by decide)
  have hmilli : 0 < nanosPerMilli := by decide
  omega

namespace Service

variable {s s' : Service}

/-! ### How long a wait may take -/

/-- The number of turns that the tasks take at most, once the token is cancelled. -/
def effort (s : Service) : Nat := (s.tasks.map Task.effort).sum

theorem effort_le (s : Service) : s.effort ≤ 2 * s.tasks.length := by
  have hle : (s.tasks.map Task.effort).sum ≤ (s.tasks.map fun _ => 2).sum :=
    List.sum_le_sum fun t _ => t.effort_le
  simpa [effort, Nat.mul_comm] using hle

theorem effort_drop {t : Task} (mem : t ∈ s.tasks) :
    t.effort + (s.drop t).effort = s.effort :=
  List.sum_map_erase _ mem

theorem effort_spawn (s : Service) (t : Task) : (s.spawn t).effort = s.effort + t.effort := by
  simp [effort, spawn]

/-- Behind the cancellation, each turn is one of those. -/
theorem Turn.effort_lt (ht : Turn s s') (cancelled : s.cancelled = true) :
    s'.effort < s.effort := by
  cases ht with
  | @chore t other mem ready =>
    have hdrop := effort_drop mem
    have hpos := Task.effort_pos_of_isReady ready
    have hsame : ((s.drop t).perform t).effort = (s.drop t).effort := by
      rw [perform_eq _ other]
      rfl
    omega
  | @wake t mem loop new =>
    -- of the two turns of a new loop, one is left when it has fallen asleep
    have hdrop := effort_drop mem
    have hnew : t.effort = 2 := by
      have hwait : t.wait = .turn := by simpa [Task.isNew] using new
      simp [Task.effort, hwait]
    have hdoze : ((s.drop t).wake t).effort = (s.drop t).effort + 1 :=
      effort_spawn ((s.drop t).tell [s.evictor.upped]) _
    omega
  | tick mem loop alive =>
    rw [cancelled] at alive
    cases alive
  | @gone t mem loop _ asleep =>
    have hdrop := effort_drop mem
    have hpos : 0 < t.effort := by
      obtain ⟨tracker, job, wait⟩ := t
      cases wait with
      | «until» _ => simp [Task.effort]
      | turn | cancellation _ | forever => cases asleep
    have hsame : ((s.drop t).tell [.workerGone Evictor.name]).effort = (s.drop t).effort := rfl
    omega
  | setOff _ patient =>
    obtain ⟨t, hmem, hp⟩ := List.any_eq_true.mp patient
    show ((s.tasks.map (Task.setOff s.now)).map Task.effort).sum < (s.tasks.map Task.effort).sum
    rw [List.map_map]
    exact List.sum_lt_sum _ _ (fun u _ => u.effort_setOff_le s.now)
      ⟨t, hmem, Task.effort_setOff_lt hp⟩

/-! ### The wait -/

/-- What a wait from a service on comes to: all tasks of the tracker have ended, and if that took
time, one of them was running until now; or none of those that are left ends before the
deadline. -/
inductive Awaited (s : Service) (tracker : TrackerId) (deadline : Nat) : Service × Closing → Prop
  | complete (u : Service) (winding : Winding s u) (done : u.pending tracker = 0)
      (inTime : u.now < deadline) (last : u.now = s.now ∨ s.running tracker u.now ≠ []) :
      Awaited s tracker deadline (u.tell [.shutDown], .complete)
  | timedOut (u : Service) (winding : Winding s u) (left : u.pending tracker ≠ 0)
      (calm : u.turn? = none) (inTime : u.now < deadline)
      (late : ∀ t ∈ u.tasks, ∀ due, t.due? = some due → deadline ≤ due) :
      Awaited s tracker deadline ({ u with now := deadline }.timeOut tracker, .timedOut)

section Wait

variable {tracker : TrackerId} {deadline : Nat}

/-- A wait goes on from where it has come to. -/
theorem Awaited.of_winding {r : Service × Closing} (hw : Winding s s')
    (last : s'.now = s.now ∨ s.running tracker s'.now ≠ []) (h : Awaited s' tracker deadline r) :
    Awaited s tracker deadline r := by
  cases h with
  | complete u winding done inTime hlast =>
    refine .complete u (hw.trans winding) done inTime ?_
    -- the time of the end is that of the point from which it goes on, or later
    rcases Nat.eq_or_lt_of_le winding.now with hnow | hnow
    · rw [← hnow]
      exact last
    · rcases hlast with hsame | hrunning
      · omega
      · rw [hw.running tracker _ hnow] at hrunning
        exact .inr hrunning
  | timedOut u winding left calm inTime late =>
    exact .timedOut u (hw.trans winding) left calm inTime late

/-- Where there is no turn, and a task of the tracker is left, one is running until what is due
next. -/
theorem running_of_next (h : s.turn? = none) (cancelled : s.cancelled = true)
    (left : s.pending tracker ≠ 0) {due : Nat} (next : s.nextDue? = some due) :
    s.running tracker due ≠ [] := by
  obtain ⟨-, -, -, hfirst⟩ := nextDue?_eq_some next
  obtain ⟨u, hmem, htracked⟩ : ∃ u ∈ s.tasks, (u.tracker == some tracker) = true :=
    List.countP_pos_iff.mp (Nat.pos_of_ne_zero left)
  have hout : u.outlasts s.now due = true := by
    unfold Task.outlasts Task.ending?
    rcases wait_of_calm h cancelled hmem with hwait | ⟨hloop, time, hwait, hlate⟩
    · simp [hwait]
    · have hle := hfirst u hmem time (by simp [Task.due?, hwait])
      simp [hwait, hloop, hle]
  rw [running_eq]
  refine List.ne_nil_of_mem (List.mem_map_of_mem (List.mem_filter.mpr ⟨hmem, ?_⟩))
  rw [htracked, hout]
  rfl

/-- Where the clock jumps to what is due next, there is a turn. -/
theorem turn?_pass {due : Nat} (next : s.nextDue? = some due) :
    ({ s with now := due } : Service).turn?.isNone = false := by
  rcases hu : ({ s with now := due } : Service).turn? with - | u
  · exact absurd (now_lt_of_next hu next) (Nat.lt_irrefl _)
  · rfl

/-- Where nothing that is due next comes before the deadline, nothing does. -/
theorem late_of_next
    (h : s.nextDue?.filter (fun due => decide (due < deadline) && isBefore due none) = none) :
    ∀ t ∈ s.tasks, ∀ due, t.due? = some due → deadline ≤ due := by
  intro t hmem due hdue
  obtain ⟨first, hfirst, hle⟩ := s.nextDue?_le hmem hdue
  rw [hfirst] at h
  have hge : deadline ≤ first := by simpa [isBefore] using h
  exact Nat.le_trans hge hle

/-- A wait is not given up: there are steps enough for all turns, and for a jump before each of
them. -/
theorem awaitTasks_awaited (tracker : TrackerId) (deadline : Nat) (steps : Nat) (s : Service)
    (cancelled : s.cancelled = true) (inTime : s.now < deadline)
    (enough : 2 * s.effort + (if s.turn?.isNone then 2 else 1) ≤ steps) :
    Awaited s tracker deadline (s.awaitTasks tracker deadline none steps) := by
  -- a turn takes one off the effort, and so pays for itself and for a jump in front of it
  induction steps generalizing s with
  | zero =>
    split at enough <;> omega
  | succ n ih =>
    rw [awaitTasks]
    rcases ht : s.turn? with - | s'
    · dsimp only
      rw [ht] at enough
      by_cases hleft : s.pending tracker = 0
      · rw [if_pos (by simpa using hleft)]
        exact .complete s (.refl cancelled) hleft inTime (.inl rfl)
      · -- without a turn to take, the clock jumps to what is due next, or to the deadline
        rw [if_neg (by simpa using hleft)]
        rcases hnext : s.nextDue?.filter fun due => decide (due < deadline) && isBefore due none
          with - | due
        · -- the time is up
          have hmax : max s.now deadline = deadline := Nat.max_eq_right (Nat.le_of_lt inTime)
          dsimp only
          rw [if_pos (by rfl), hmax]
          exact .timedOut s (.refl cancelled) hleft ht inTime (late_of_next hnext)
        · obtain ⟨hdue, hbefore⟩ := Option.filter_eq_some_iff.mp hnext
          have hin : due < deadline := by
            simpa [isBefore] using hbefore
          obtain ⟨hw, hlate⟩ := winding_pass ht cancelled hdue
          refine (ih { s with now := due } cancelled hin ?_).of_winding hw
            (.inr (running_of_next ht cancelled hleft hdue))
          -- the jump takes a step, and the turn behind it another
          rw [turn?_pass hdue]
          have heffort : ({ s with now := due } : Service).effort = s.effort := rfl
          simp only [Option.isNone_none, if_true] at enough
          simp only [Bool.false_eq_true, if_false]
          omega
    · dsimp only
      have hturn := Turn.of_turn? ht
      obtain ⟨hw, hnow⟩ := hturn.winding cancelled
      have hless := hturn.effort_lt cancelled
      refine (ih s' hw.cancelled (by rw [hnow]; exact inTime) ?_).of_winding hw (.inl hnow)
      rw [ht] at enough
      simp only [Option.isNone_some, Bool.false_eq_true, if_false] at enough
      split <;> omega

end Wait

/-! ### What a closing tells -/

/-- The time at which a closing that begins now is out of time. -/
def deadline (s : Service) : Nat := s.now + s.timeout.millisUp

/-- The last of the ends that are still to come, of those that come; now, if there is none. -/
def lastEnd (s : Service) (tracker : TrackerId) : Nat :=
  (s.running tracker (s.now + 1)).foldr (fun e last => max (e.getD 0) last) s.now

/-- A closing tells the truth about the tasks of its tracker, in the terms of the service that is
closed. -/
structure Truthful (s : Service) (tracker : TrackerId) (r : Service × Closing) : Prop where
  cancelled : r.1.cancelled = true
  closed : r.1.closed = tracker :: s.closed
  core : r.1.core = s.core
  /-- If all tasks end before the deadline, it ends well, when the last of them ends. -/
  complete : s.running tracker s.deadline = [] →
    r.2 = .complete ∧ r.1.now = s.lastEnd tracker
  /-- If one of them does not, it ends badly, at the deadline. -/
  timedOut : s.running tracker s.deadline ≠ [] → r.2 = .timedOut ∧ r.1.now = s.deadline
  /-- It leaves those that are still running at the deadline. -/
  pending : r.1.pending tracker = (s.running tracker s.deadline).length
  running : ∀ tracker time, r.1.now < time → r.1.running tracker time = s.running tracker time
  /-- The last thing that it tells is how it ended, and how many were left if it ended badly. -/
  told : ∃ ns, r.1.notices = s.notices ++ ns ++
      [if s.running tracker s.deadline = [] then .shutDown
        else .shutdownTimedOut s.timeout.seconds (s.running tracker s.deadline).length] ∧
    ∀ n ∈ ns, n.isOfLoop = true ∨ n = .cancelled ∨ n = .interrupted

variable {tracker : TrackerId}

/-- The last of some ends and a time is not behind a limit exactly if none of them is. -/
theorem foldr_max_le_iff (es : List (Option Nat)) (now limit : Nat) :
    es.foldr (fun e last => max (e.getD 0) last) now ≤ limit ↔
      now ≤ limit ∧ ∀ e ∈ es, e.getD 0 ≤ limit := by
  induction es with
  | nil => simp
  | cons e es ih =>
    rw [List.foldr_cons, Nat.max_le, ih]
    simp only [List.mem_cons, forall_eq_or_imp]
    exact and_left_comm

/-- An end is still to come at a time exactly if it is one of the ends, and not before that time. -/
theorem mem_running {time : Nat} {e : Option Nat} :
    e ∈ s.running tracker time ↔ e ∈ s.endings tracker ∧ ∀ stop, e = some stop → time ≤ stop := by
  rw [running, List.mem_filter]
  rcases e with - | stop <;> simp

/-- The last end is the time behind which nothing is running, and until which something is. -/
theorem eq_lastEnd {time : Nat} (later : s.now ≤ time)
    (idle : ∀ t, time < t → s.running tracker t = [])
    (last : time = s.now ∨ s.running tracker time ≠ []) : time = s.lastEnd tracker := by
  have hends (e : Option Nat) (hmem : e ∈ s.endings tracker) : ∃ stop, e = some stop := by
    rcases e with - | stop
    · -- a task that never ends is always running
      have hidle := idle (time + 1) (Nat.lt_succ_self _)
      have : none ∈ s.running tracker (time + 1) := mem_running.mpr ⟨hmem, nofun⟩
      rw [hidle] at this
      cases this
    · exact ⟨stop, rfl⟩
  apply Nat.le_antisymm
  · obtain ⟨hnow, hall⟩ := (foldr_max_le_iff _ s.now (s.lastEnd tracker)).mp (Nat.le_refl _)
    -- either no time has passed, or something was running until then
    rcases Nat.eq_or_lt_of_le later with hsame | hlate
    · rw [← hsame]
      exact hnow
    · rcases last with hsame | hrunning
      · omega
      · obtain ⟨e, he⟩ := List.exists_mem_of_ne_nil _ hrunning
        obtain ⟨hmem, hstop⟩ := mem_running.mp he
        obtain ⟨stop, rfl⟩ := hends e hmem
        have hge := hstop stop rfl
        refine Nat.le_trans hge (hall (some stop) (mem_running.mpr ⟨hmem, ?_⟩))
        intro u hu
        obtain rfl := Option.some.inj hu
        exact Nat.lt_of_lt_of_le hlate hge
  · refine (foldr_max_le_iff _ _ _).mpr ⟨later, ?_⟩
    intro e he
    obtain ⟨hmem, -⟩ := mem_running.mp he
    obtain ⟨stop, rfl⟩ := hends e hmem
    -- what ends later would still be running at its end
    refine Nat.le_of_not_lt fun hgt => ?_
    have : some stop ∈ s.running tracker stop := by
      refine mem_running.mpr ⟨hmem, ?_⟩
      intro u hu
      exact Nat.le_of_eq (Option.some.inj hu)
    rw [idle stop hgt] at this
    cases this

theorem timeout_of_core (h : s'.core = s.core) : s'.timeout = s.timeout := by
  have htimeout : s'.core.timeout = s.core.timeout := by rw [h]
  exact htimeout

/-- Where no task is left, none is running. -/
theorem running_of_done (h : s.pending tracker = 0) (time : Nat) : s.running tracker time = [] := by
  have hnone : s.endings tracker = [] :=
    List.eq_nil_of_length_eq_zero ((length_endings tracker s).trans h)
  rw [running, hnone]
  rfl

section Late

variable {now : Nat}

/-! When the time is up, that is told, and nothing else changes.  It is said of any time, since the
deadline itself is a number that is not to be computed. -/

theorem now_timeOut (s : Service) (now : Nat) (tracker : TrackerId) :
    ({ s with now }.timeOut tracker).now = now := rfl

theorem cancelled_timeOut (s : Service) (now : Nat) (tracker : TrackerId) :
    ({ s with now }.timeOut tracker).cancelled = s.cancelled := rfl

theorem closed_timeOut (s : Service) (now : Nat) (tracker : TrackerId) :
    ({ s with now }.timeOut tracker).closed = s.closed := rfl

theorem core_timeOut (s : Service) (now : Nat) (tracker : TrackerId) :
    ({ s with now }.timeOut tracker).core = s.core := rfl

theorem pending_timeOut (s : Service) (now : Nat) (tracker : TrackerId) :
    ({ s with now }.timeOut tracker).pending tracker = s.pending tracker := rfl

theorem notices_timeOut (s : Service) (now : Nat) (tracker : TrackerId) :
    ({ s with now }.timeOut tracker).notices
      = s.notices ++ [.shutdownTimedOut s.timeout.seconds (s.pending tracker)] := rfl

/-- Where none of the tasks that are left ends before a time, all of them are running then. -/
theorem running_of_late (calm : s.turn? = none) (cancelled : s.cancelled = true)
    (late : ∀ t ∈ s.tasks, ∀ due, t.due? = some due → now ≤ due) (tracker : TrackerId) :
    s.running tracker now = s.endings tracker := by
  rw [running, List.filter_eq_self]
  intro e he
  obtain ⟨t, ht, rfl⟩ := List.mem_map.mp he
  have hmem := (List.mem_filter.mp ht).1
  unfold Task.ending?
  rcases wait_of_calm calm cancelled hmem with hwait | ⟨hloop, time, hwait, -⟩
  · simp [hwait]
  · have hle := late t hmem time (by simp [Task.due?, hwait])
    simp [hwait, hloop, hle]

/-- And the same of them are running later. -/
theorem running_timeOut (calm : s.turn? = none) (cancelled : s.cancelled = true)
    (late : ∀ t ∈ s.tasks, ∀ due, t.due? = some due → now ≤ due) (tracker other : TrackerId)
    (time : Nat) :
    ({ s with now }.timeOut tracker).running other time = s.running other time := by
  have hkept := endings_pass other calm cancelled late
  show (({ s with now } : Service).endings other).filter _ = _
  rw [hkept]
  rfl

end Late

/-- What a wait comes to is the truth. -/
theorem Awaited.truthful {r : Service × Closing}
    (h : Awaited { s.cancel with closed := tracker :: s.closed } tracker s.deadline r) :
    Truthful s tracker r := by
  cases h with
  | complete u winding done inTime last =>
    -- no task is left, so none is running at any later time, and the deadline is one
    have hnone : s.running tracker s.deadline = [] :=
      (winding.running tracker _ inTime).symm.trans (running_of_done done _)
    have hend : u.now = s.lastEnd tracker := by
      refine eq_lastEnd winding.now ?_ last
      intro time later
      exact (winding.running tracker _ later).symm.trans (running_of_done done _)
    obtain ⟨ns, htold, hns⟩ := winding.told
    refine ⟨winding.cancelled, winding.closed, winding.core, fun _ => ⟨rfl, hend⟩,
      fun some => absurd hnone some, ?_, winding.running, ns, ?_, fun n hn => .inl (hns n hn)⟩
    · show u.pending tracker = _
      rw [done, hnone]
      rfl
    · show u.notices ++ [.shutDown] = _
      rw [htold, if_pos hnone]
      rfl
  | timedOut u winding left calm inTime late =>
    -- of the tasks that are left, none ends before the deadline
    have hall := running_of_late calm winding.cancelled late tracker
    have hsame : s.running tracker s.deadline = u.endings tracker :=
      (winding.running tracker _ inTime).symm.trans hall
    have hlength : (s.running tracker s.deadline).length = u.pending tracker := by
      rw [hsame, length_endings]
    have hsome : s.running tracker s.deadline ≠ [] := by
      intro hnone
      rw [hnone] at hlength
      exact left hlength.symm
    have hcancelled := (cancelled_timeOut u s.deadline tracker).trans winding.cancelled
    have hclosed := (closed_timeOut u s.deadline tracker).trans winding.closed
    have hcore := (core_timeOut u s.deadline tracker).trans winding.core
    have hpending := (pending_timeOut u s.deadline tracker).trans hlength.symm
    obtain ⟨ns, htold, hns⟩ := winding.told
    refine ⟨hcancelled, hclosed, hcore, fun none => absurd none hsome,
      fun _ => ⟨rfl, now_timeOut u s.deadline tracker⟩, hpending, ?_, ns, ?_,
      fun n hn => .inl (hns n hn)⟩
    · intro other time later
      rw [now_timeOut] at later
      have hlater : u.now < time := Nat.lt_trans inTime later
      rw [running_timeOut calm winding.cancelled late, winding.running other time hlater]
      rfl
    · have htime : u.timeout = s.timeout := timeout_of_core winding.core
      rw [notices_timeOut, htold, if_neg hsome, htime, hlength]
      rfl

/-- **A closing tells the truth.** -/
theorem close_truthful (s : Service) (tracker : TrackerId) (positive : s.timeout.isZero = false) :
    Truthful s tracker (s.close tracker none) := by
  have hmillis : s.now < s.deadline := Nat.lt_add_of_pos_right (Span.millisUp_pos positive)
  apply Awaited.truthful
  unfold close
  dsimp only
  split
  · -- there is nothing to wait for
    rename_i hdone
    exact .complete _ (.refl rfl) (by simpa using hdone) hmillis (.inl rfl)
  · rw [if_neg (by simpa [cancel] using positive)]
    refine awaitTasks_awaited tracker _ _ _ rfl hmillis ?_
    have heffort := s.effort_le
    show 2 * s.effort + _ ≤ 4 * s.tasks.length + 4
    split <;> omega

/-! ### What sets a closing off -/

/-- The second service is the first at the same time, but that by now the token may be cancelled,
and the loop gone, and that it was told what set a closing off. -/
structure Onset (s s' : Service) : Prop where
  core : s'.core = s.core
  closed : s'.closed = s.closed
  now : s'.now = s.now
  running : ∀ tracker time, s.now < time → s'.running tracker time = s.running tracker time
  told : ∃ ns, s'.notices = s.notices ++ ns ∧
    ∀ n ∈ ns, n.isOfLoop = true ∨ n = .cancelled ∨ n = .interrupted

theorem Onset.refl (s : Service) : Onset s s where
  core := rfl
  closed := rfl
  now := rfl
  running := fun _ _ _ => rfl
  told := ⟨[], (List.append_nil _).symm, fun _ hn => absurd hn List.not_mem_nil⟩

/-- A closing does not go back in time. -/
theorem Truthful.now_le {r : Service × Closing} (h : Truthful s tracker r) : s.now ≤ r.1.now := by
  by_cases hnone : s.running tracker s.deadline = []
  · rw [(h.complete hnone).2]
    exact ((foldr_max_le_iff _ _ _).mp (Nat.le_refl _)).1
  · rw [(h.timedOut hnone).2]
    exact Nat.le_add_right _ _

/-- What is true of a service at the onset of its closing is true of it before. -/
theorem Truthful.of_onset {r : Service × Closing} (positive : s.timeout.isZero = false)
    (ho : Onset s s') (h : Truthful s' tracker r) : Truthful s tracker r := by
  have htimeout := timeout_of_core ho.core
  have hdeadline : s'.deadline = s.deadline := by
    unfold deadline
    rw [ho.now, htimeout]
  have hlate : s.now < s.deadline := Nat.lt_add_of_pos_right (Span.millisUp_pos positive)
  have hrunning : s'.running tracker s'.deadline = s.running tracker s.deadline := by
    rw [hdeadline, ho.running tracker _ hlate]
  have hend : s'.lastEnd tracker = s.lastEnd tracker := by
    unfold lastEnd
    rw [ho.now, ho.running tracker _ (Nat.lt_succ_self _)]
  refine ⟨h.cancelled, ?_, h.core.trans ho.core, ?_, ?_, ?_, ?_, ?_⟩
  · rw [h.closed, ho.closed]
  · intro none
    rw [← hend]
    exact h.complete (hrunning.trans none)
  · intro some
    rw [← hdeadline]
    exact h.timedOut (by rw [hrunning]; exact some)
  · rw [h.pending, hrunning]
  · intro tracker time later
    have hlater : s.now < time := by
      have hle := h.now_le
      rw [ho.now] at hle
      exact Nat.lt_of_le_of_lt hle later
    rw [h.running tracker time later, ho.running tracker time hlater]
  · obtain ⟨ns, htold, hns⟩ := ho.told
    obtain ⟨ns', htold', hns'⟩ := h.told
    refine ⟨ns ++ ns', ?_, ?_⟩
    · rw [htold', htold, hrunning, htimeout, List.append_assoc s.notices]
    · intro n hn
      rcases List.mem_append.mp hn with hn | hn
      · exact hns n hn
      · exact hns' n hn

/-- Two closings come to the same: with the same result at the same time, they leave the same
behind, and in the end they tell the same. -/
structure SameEnd (tracker : TrackerId) (r r' : Service × Closing) : Prop where
  closing : r.2 = r'.2
  now : r.1.now = r'.1.now
  cancelled : r.1.cancelled = r'.1.cancelled
  closed : r.1.closed = r'.1.closed
  core : r.1.core = r'.1.core
  pending : r.1.pending tracker = r'.1.pending tracker
  running : ∀ tracker time, r.1.now < time → r.1.running tracker time = r'.1.running tracker time
  told : r.1.notices.getLast? = r'.1.notices.getLast?

/-- There is only one truth. -/
theorem Truthful.sameEnd {r r' : Service × Closing} (h : Truthful s tracker r)
    (h' : Truthful s tracker r') : SameEnd tracker r r' := by
  have hboth : r.2 = r'.2 ∧ r.1.now = r'.1.now := by
    by_cases hnone : s.running tracker s.deadline = []
    · obtain ⟨hc, hn⟩ := h.complete hnone
      obtain ⟨hc', hn'⟩ := h'.complete hnone
      exact ⟨hc.trans hc'.symm, hn.trans hn'.symm⟩
    · obtain ⟨hc, hn⟩ := h.timedOut hnone
      obtain ⟨hc', hn'⟩ := h'.timedOut hnone
      exact ⟨hc.trans hc'.symm, hn.trans hn'.symm⟩
  refine ⟨hboth.1, hboth.2, h.cancelled.trans h'.cancelled.symm, h.closed.trans h'.closed.symm,
    h.core.trans h'.core.symm, h.pending.trans h'.pending.symm, ?_, ?_⟩
  · intro tracker time later
    rw [h.running tracker time later, h'.running tracker time (hboth.2 ▸ later)]
  · obtain ⟨ns, htold, -⟩ := h.told
    obtain ⟨ns', htold', -⟩ := h'.told
    rw [htold, htold', List.getLast?_concat, List.getLast?_concat]

end Service

end CacheWarden
