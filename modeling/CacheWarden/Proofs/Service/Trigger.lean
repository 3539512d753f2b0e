import CacheWarden.Proofs.Service.Closing
/-!
What sets a closing off.

Where there is no turn to take, a closing that is set off at once is one of the service
as it is (`awaitClosing_strike`): what happens up to the moment at which it is noticed
changes nothing that the closing is about.

Where the trigger is still to come (`Armed`), the service lives on until it does.
That this does not take for ever is again a matter of counting (`Turn.strain_lt`):
the loop sleeps between its clears, so no more than one clear falls on a time to which
the clock jumps.
-/

namespace CacheWarden

namespace Service

variable {s s' : Service} {tracker : TrackerId}

/-! ### At once -/

/-- Something sets a closing off now: the token is cancelled, or an interrupt is sent. -/
def strike (s : Service) : Trigger → Service
  | .cancelled => s.cancel
  | .interrupted => s.spawn ⟨none, .interrupt, .until s.now⟩

/-- The service as whoever begins to wait takes it: an interrupt that was sent before goes
unnoticed. -/
def hushed (s : Service) : Service := { s with interrupted := false }

/-- There are steps enough for the turns that are left, and more. -/
theorem lt_stepBound (s : Service) (limit : Nat) :
    s.courses.length + 2 * s.tasks.length + 4 < s.stepBound limit := by
  unfold stepBound turnBound
  refine Nat.lt_of_lt_of_le (Nat.lt_succ_self _) ?_
  exact Nat.le_mul_of_pos_left _ (Nat.succ_pos _)

/-- Whoever waits for something that sets a closing off, when the token is cancelled, notices that
behind the turns that are left. -/
theorem awaitTrigger_cancelled (steps : Nat) (s : Service) (cancelled : s.cancelled = true)
    (enough : s.effort < steps) :
    ∃ u, s.awaitTrigger none steps = (u, some .cancelled) ∧ Winding s u ∧ u.now = s.now := by
  induction steps generalizing s with
  | zero => omega
  | succ n ih =>
    rw [awaitTrigger]
    rcases ht : s.turn? with - | s'
    · exact ⟨s, by simp [cancelled], .refl cancelled, rfl⟩
    · have hturn := Turn.of_turn? ht
      obtain ⟨hw, hnow⟩ := hturn.winding cancelled
      have hless := hturn.effort_lt cancelled
      obtain ⟨u, hu, hwind, hsame⟩ := ih s' hw.cancelled (by omega)
      exact ⟨u, hu, hw.trans hwind, hsame.trans hnow⟩

/-- Where there is no turn, and an interrupt is sent, it is what has its turn. -/
theorem turn?_interrupt (h : s.turn? = none) :
    (s.spawn ⟨none, .interrupt, .until s.now⟩).turn? = some { s with interrupted := true } := by
  obtain ⟨hready, hcalm⟩ := turn?_eq_none_iff.mp h
  let t : Task := ⟨none, .interrupt, .until s.now⟩
  have hsent : t.isReady s.now = true := by simp [t, Task.isReady, Task.due?]
  -- no other task is ready, so none of them is the one that was sent
  have honly {u : Task} (mem : u ∈ (s.spawn t).tasks) (ready : u.isReady s.now = true) : u = t := by
    rcases List.mem_append.mp mem with hmem | hmem
    · rw [hready u hmem] at ready
      cases ready
    · exact List.mem_singleton.mp hmem
  have hnew : t ∉ s.tasks := by
    intro hmem
    rw [hready t hmem] at hsent
    cases hsent
  rcases hs : (s.spawn t).turn? with - | u
  · obtain ⟨hnone, -⟩ := turn?_eq_none_iff.mp hs
    have hmem : t ∈ (s.spawn t).tasks := List.mem_append_right _ (List.mem_singleton.mpr rfl)
    have hnot : t.isReady s.now = false := hnone t hmem
    rw [hnot] at hsent
    cases hsent
  · congr 1
    have hturn := Turn.of_turn? hs
    cases hturn with
    | chore other mem ready =>
      obtain rfl := honly mem ready
      show { (s.spawn t).drop t with interrupted := true } = _
      have hdrop : (s.spawn t).drop t = s := by
        show ({ s with tasks := (s.tasks ++ [t]).erase t } : Service) = s
        rw [List.erase_append_right _ hnew, List.erase_cons_head, List.append_nil]
      rw [hdrop]
    | wake mem loop new =>
      -- an interrupt is no loop
      obtain rfl := honly mem (by simp [Task.isReady, new])
      cases loop
    | @tick u due mem loop alive due_eq le =>
      obtain rfl := honly mem (by
        have hle : due ≤ s.now := le
        simp [Task.isReady, due_eq, hle])
      cases loop
    | @gone u mem loop cancelled asleep =>
      rcases List.mem_append.mp mem with hmem | hmem
      · have hjob : (u.job == .evict) = true := loop
        have hdoze := (hcalm cancelled u hmem).1
        simp [Task.isDozing, hjob, asleep] at hdoze
      · rw [List.mem_singleton.mp hmem] at loop
        cases loop
    | setOff cancelled patient =>
      -- and it waits for no cancellation
      obtain ⟨u, hmem, hp⟩ := List.any_eq_true.mp patient
      rcases List.mem_append.mp hmem with hmem | hmem
      · rw [(hcalm cancelled u hmem).2] at hp
        cases hp
      · rw [List.mem_singleton.mp hmem] at hp
        cases hp

/-- Whether there is a turn does not depend on whether an interrupt was sent. -/
theorem turn?_interrupted (h : s.turn? = none) (interrupted : Bool) :
    ({ s with interrupted } : Service).turn? = none := by
  have hcalm := turn?_eq_none_iff.mp h
  exact turn?_eq_none_iff.mpr hcalm

/-- Once it is noticed what sets a closing off, the service is told so, and closed. -/
theorem awaitClosing_of_trigger {u : Service} {trigger : Trigger} (tracker : TrackerId)
    (h : s.hushed.awaitTrigger none (s.hushed.stepBound s.horizon) = (u, some trigger)) :
    s.awaitClosing tracker none = (u.tell [trigger.notice]).close tracker none := by
  unfold hushed at h
  unfold awaitClosing
  simp only [Option.getD_none]
  rw [show horizon { s with interrupted := false } = s.horizon from rfl, h]

theorem Onset.tell {u : Service} (h : Onset s u) (trigger : Trigger) :
    Onset s (u.tell [trigger.notice]) where
  core := h.core
  closed := h.closed
  now := h.now
  running := h.running
  told := by
    obtain ⟨ns, htold, hns⟩ := h.told
    refine ⟨ns ++ [trigger.notice], ?_, ?_⟩
    · show u.notices ++ [trigger.notice] = _
      rw [htold, List.append_assoc]
    · intro n hn
      rcases List.mem_append.mp hn with hn | hn
      · exact hns n hn
      · rw [List.mem_singleton.mp hn]
        cases trigger with
        | cancelled => exact .inr (.inl rfl)
        | interrupted => exact .inr (.inr rfl)

/-- A closing from the onset on tells the truth about what was before. -/
theorem truthful_of_trigger {u : Service} {trigger : Trigger}
    (positive : s.timeout.isZero = false) (ho : Onset s u)
    (h : s'.hushed.awaitTrigger none (s'.hushed.stepBound s'.horizon) = (u, some trigger)) :
    Truthful s tracker (s'.awaitClosing tracker none) := by
  have htold := ho.tell trigger
  have htimeout : (u.tell [trigger.notice]).timeout = s.timeout := timeout_of_core htold.core
  rw [awaitClosing_of_trigger tracker h]
  refine Truthful.of_onset positive htold (close_truthful _ tracker ?_)
  rw [htimeout]
  exact positive

/-- **A closing that is set off now tells the truth**, whatever sets it off. -/
theorem awaitClosing_strike (positive : s.timeout.isZero = false) (tracker : TrackerId)
    (trigger : Trigger) (calm : trigger = .interrupted → s.turn? = none) :
    Truthful s tracker ((s.strike trigger).awaitClosing tracker none) := by
  cases trigger with
  | cancelled =>
    have hbound := s.cancel.hushed.lt_stepBound s.cancel.horizon
    have heffort : s.cancel.hushed.effort ≤ 2 * s.cancel.hushed.tasks.length :=
      s.cancel.hushed.effort_le
    obtain ⟨u, hu, hw, hnow⟩ := awaitTrigger_cancelled (s.cancel.hushed.stepBound s.cancel.horizon)
      s.cancel.hushed rfl (by omega)
    obtain ⟨ns, htold, hns⟩ := hw.told
    have honset : Onset s u := by
      refine ⟨hw.core, hw.closed, hnow, ?_, ns, htold, fun n hn => .inl (hns n hn)⟩
      intro tracker time later
      exact hw.running tracker time (by rw [hnow]; exact later)
    exact truthful_of_trigger positive honset hu
  | interrupted =>
    have h := calm rfl
    have hbound := (s.strike .interrupted).hushed.lt_stepBound (s.strike .interrupted).horizon
    obtain ⟨n, hn⟩ : ∃ n, (s.strike .interrupted).hushed.stepBound (s.strike .interrupted).horizon
        = n + 2 :=
      ⟨_, (Nat.sub_add_cancel (by omega)).symm⟩
    -- the interrupt has its turn, and then there is none
    obtain ⟨trigger, htrigger⟩ : ∃ trigger, (s.strike .interrupted).hushed.awaitTrigger none (n + 2)
        = ({ s with interrupted := true }, some trigger) := by
      have hturn : (s.strike .interrupted).hushed.turn? = some { s with interrupted := true } :=
        turn?_interrupt (turn?_interrupted h false)
      rw [awaitTrigger, hturn]
      dsimp only
      rw [awaitTrigger, turn?_interrupted h true]
      rcases s.cancelled with - | -
      · exact ⟨.interrupted, rfl⟩
      · exact ⟨.cancelled, rfl⟩
    -- that an interrupt was sent is nothing that the closing is about
    have honset : Onset s { s with interrupted := true } :=
      { Onset.refl s with core := rfl, running := fun _ _ _ => rfl }
    rw [← hn] at htrigger
    exact truthful_of_trigger positive honset htrigger

/-! ### Later -/

/-- Something is to set a closing off at a time. -/
def strikeAt (s : Service) (time : Nat) : Trigger → Service
  | .cancelled => s.spawn ⟨none, .cancel, .until time⟩
  | .interrupted => s.spawn ⟨none, .interrupt, .until time⟩

/-- Something has set a closing off, or does so by a time. -/
def Armed (s : Service) (time : Nat) : Prop :=
  s.cancelled = true ∨ s.interrupted = true ∨
    ∃ t ∈ s.tasks, (t.job = .cancel ∨ t.job = .interrupt) ∧
      ∃ due, t.wait = .until due ∧ due ≤ time

/-- No turn disarms what is to set a closing off, but that it does so. -/
theorem Armed.turn {time : Nat} (h : s.Armed time) (ht : Turn s s') : s'.Armed time := by
  rcases h with hc | hi | ⟨t, hmem, hjob, hdue⟩
  · exact .inl (ht.cancelled hc)
  · refine .inr (.inl ?_)
    cases ht with
    | @chore u other mem ready =>
      rw [perform_eq _ other]
      exact Bool.or_eq_true_iff.mpr (.inl hi)
    | @tick u due mem loop alive due_eq le =>
      obtain ⟨notices, htick⟩ := tick_eq (s.drop u) u
      rw [htick, clearCache_eq]
      exact hi
    | wake _ _ _ | gone _ _ _ _ | setOff _ _ => exact hi
  · have hloop : t.isLoop = false := by
      rcases hjob with hj | hj <;> simp [Task.isLoop, hj]
    have hother {u : Task} (loop : u.isLoop = true) : t ≠ u := by
      rintro rfl
      rw [hloop] at loop
      cases loop
    -- it stays among the tasks, unless it is the one that has its turn
    have hstays {u : Task} (hne : t ≠ u) : t ∈ s.tasks.erase u :=
      (List.mem_erase_of_ne hne).mpr hmem
    cases ht with
    | @chore u other mem ready =>
      rw [perform_eq _ other]
      by_cases hu : t = u
      · subst hu
        -- this is the turn in which it sets the closing off
        rcases hjob with hj | hj
        · exact .inl (by simp [hj])
        · exact .inr (.inl (by simp [hj]))
      · exact .inr (.inr ⟨t, hstays hu, hjob, hdue⟩)
    | wake mem loop new =>
      exact .inr (.inr ⟨t, List.mem_append_left _ (hstays (hother loop)), hjob, hdue⟩)
    | @tick u due mem loop alive due_eq le =>
      obtain ⟨notices, htick⟩ := tick_eq (s.drop u) u
      rw [htick, clearCache_eq]
      exact .inr (.inr ⟨t, List.mem_append_left _ (hstays (hother loop)), hjob, hdue⟩)
    | gone mem loop cancelled asleep =>
      exact .inr (.inr ⟨t, hstays (hother loop), hjob, hdue⟩)
    | setOff cancelled patient =>
      refine .inr (.inr ⟨t, List.mem_map.mpr ⟨t, hmem, ?_⟩, hjob, hdue⟩)
      obtain ⟨due, hwait, -⟩ := hdue
      obtain ⟨tracker, job, wait⟩ := t
      obtain rfl : wait = .until due := hwait
      rfl

/-- No turn goes back in time. -/
theorem Turn.now_le (ht : Turn s s') : s.now ≤ s'.now := by
  cases ht with
  | chore other mem ready =>
    rw [perform_eq _ other]
    exact Nat.le_refl _
  | @tick u due mem loop alive due_eq le =>
    obtain ⟨notices, htick⟩ := tick_eq (s.drop u) u
    rw [htick, clearCache_eq]
    exact Nat.le_add_right _ _
  | wake _ _ _ | gone _ _ _ _ | setOff _ _ => exact Nat.le_refl _

/-- No turn changes the time to end in. -/
theorem Turn.timeout (ht : Turn s s') : s'.timeout = s.timeout := by
  cases ht with
  | chore other mem ready =>
    rw [perform_eq _ other]
    rfl
  | @tick u due mem loop alive due_eq le =>
    obtain ⟨notices, htick⟩ := tick_eq (s.drop u) u
    rw [htick, clearCache_eq]
    rfl
  | wake _ _ _ | gone _ _ _ _ | setOff _ _ => rfl

end Service

/-! ### How long a life may go on at one time -/

namespace Task

/-- The number of turns that the task takes at most before the clock moves: those that it takes
behind the cancellation, and the clear of a loop that does not sleep on. -/
def strain (now : Nat) (t : Task) : Nat :=
  t.effort + if t.isLoop && (t.isReady now || t.isPatient) then 1 else 0

theorem strain_le (now : Nat) (t : Task) : t.strain now ≤ t.effort + if t.isLoop then 1 else 0 := by
  unfold strain
  rcases t.isLoop with - | -
  · simp
  · simp only [Bool.true_and, if_true]
    split <;> omega

theorem effort_le_strain (now : Nat) (t : Task) : t.effort ≤ t.strain now := Nat.le_add_right _ _

theorem strain_setOff_lt {now : Nat} {t : Task} (h : t.isPatient = true) :
    (t.setOff now).strain now < t.strain now := by
  have hless : (t.setOff now).effort < t.effort := effort_setOff_lt h
  have hle := (t.setOff now).strain_le now
  have hloop : (t.setOff now).isLoop = t.isLoop := congrFun (Service.isLoop_comp_setOff now) t
  have hfull : t.strain now = t.effort + if t.isLoop then 1 else 0 := by simp [strain, h]
  rw [hloop] at hle
  omega

theorem strain_setOff_le (now : Nat) (t : Task) : (t.setOff now).strain now ≤ t.strain now := by
  rcases hp : t.isPatient with - | -
  · -- a task that does not wait for the cancellation learns nothing
    have hsame : t.setOff now = t := by
      obtain ⟨tracker, job, wait⟩ := t
      cases wait with
      | turn | «until» _ | forever => rfl
      | cancellation _ => cases hp
    rw [hsame]
  · exact Nat.le_of_lt (strain_setOff_lt hp)

end Task

namespace Service

variable {s s' : Service} {tracker : TrackerId}

/-- The number of turns that the tasks take at most before the clock moves. -/
def strain (s : Service) : Nat := (s.tasks.map (Task.strain s.now)).sum

theorem strain_drop {t : Task} (mem : t ∈ s.tasks) :
    t.strain s.now + (s.drop t).strain = s.strain :=
  List.sum_map_erase _ mem

theorem strain_spawn (s : Service) (t : Task) :
    (s.spawn t).strain = s.strain + t.strain s.now := by
  simp [strain, spawn]

/-- The loops are the only tasks that take more turns than behind the cancellation, and each of them
one at most. -/
theorem strain_le (s : Service) : s.strain ≤ s.effort + s.loops.length := by
  unfold strain effort loops
  induction s.tasks with
  | nil => simp
  | cons t ts ih =>
    have ht := t.strain_le s.now
    rw [List.map_cons, List.sum_cons, List.map_cons, List.sum_cons, List.filter_cons]
    split at ht
    · rename_i hloop
      rw [if_pos hloop, List.length_cons]
      omega
    · rename_i hloop
      rw [if_neg hloop]
      omega

theorem effort_le_strain (s : Service) : s.effort ≤ s.strain :=
  List.sum_le_sum fun t _ => t.effort_le_strain s.now

/-- Where there is no loop, the tasks take no more turns than behind the cancellation. -/
theorem strain_of_idle (h : s.loops = []) : s.strain = s.effort := by
  have hle := s.strain_le
  have hge := s.effort_le_strain
  rw [h, List.length_nil] at hle
  omega

/-- A lone loop that clears, and sleeps on, takes the turn that it had before it. -/
theorem strain_tick {t : Task} {due : Nat} (mem : t ∈ s.tasks) (loop : t.isLoop = true)
    (due_eq : t.due? = some due) (le : due ≤ s.now) (lone : s.loops.length ≤ 1)
    (rests : 0 < s.evictor.worker.schedule.delay.millisUp) :
    ((s.drop t).tick t).strain < s.strain := by
  have hdrop := strain_drop mem
  have hfull : t.strain s.now = 2 := by
    obtain ⟨tracker, job, wait⟩ := t
    obtain rfl : wait = .until due := by
      cases wait with
      | «until» time => exact congrArg Wait.until (Option.some.inj due_eq)
      | turn | cancellation _ | forever => cases due_eq
    simp [Task.strain, Task.effort, Task.isReady, Task.due?, loop, le]
  -- it was the only loop
  have hidle : (s.drop t).loops = [] := by
    have hmem : t ∈ s.loops := List.mem_filter.mpr ⟨mem, loop⟩
    have hlength := List.length_erase_of_mem hmem
    rw [loops_drop]
    apply List.eq_nil_of_length_eq_zero
    omega
  -- so it does not matter for the other tasks that the clear takes time
  have hother : ({ s.drop t with now := (s.drop t).sweepEnd } : Service).strain
      = (s.drop t).strain := by
    have hloops : loops { s.drop t with now := (s.drop t).sweepEnd } = [] := hidle
    rw [strain_of_idle hloops, strain_of_idle hidle]
    rfl
  -- and it sleeps on
  have hdozing (now delay : Nat) (h : 0 < delay) :
      Task.strain now { t with wait := .until (now + delay) } = 1 := by
    simp [Task.strain, Task.effort, Task.isReady, Task.isNew, Task.due?, Task.isPatient,
      Nat.ne_of_gt h]
  have hafter : ((s.drop t).tick t).strain = (s.drop t).strain + 1 := by
    obtain ⟨notices, htick⟩ := tick_eq (s.drop t) t
    rw [htick, clearCache_eq]
    refine (strain_spawn { s.drop t with now := (s.drop t).sweepEnd } _).trans ?_
    rw [hother]
    exact congrArg (_ + ·) (hdozing _ _ rests)
  omega

/-- Each turn is one of those, if the loop sleeps between its clears. -/
theorem Turn.strain_lt (ht : Turn s s') (lone : s.loops.length ≤ 1)
    (rests : 0 < s.evictor.worker.schedule.delay.millisUp) : s'.strain < s.strain := by
  cases ht with
  | @chore t other mem ready =>
    have hdrop := strain_drop mem
    have hpos := Task.effort_pos_of_isReady ready
    have hle := t.effort_le_strain s.now
    have hsame : ((s.drop t).perform t).strain = (s.drop t).strain := by
      rw [perform_eq _ other]
      rfl
    omega
  | @wake t mem loop new =>
    -- the loop was to take two turns and a clear, and has one turn and maybe a clear before it
    have hdrop := strain_drop mem
    have hnew : t.strain s.now = 3 := by
      have hwait : t.wait = .turn := by simpa [Task.isNew] using new
      simp [Task.strain, Task.effort, Task.isReady, hwait, loop, new]
    have hdoze : ((s.drop t).wake t).strain ≤ (s.drop t).strain + 2 := by
      refine (Nat.le_of_eq (strain_spawn ((s.drop t).tell [s.evictor.upped]) _)).trans ?_
      refine Nat.add_le_add_left ((Task.strain_le _ _).trans ?_) _
      show 1 + (if t.isLoop then 1 else 0) ≤ 2
      rw [if_pos loop]
    omega
  | tick mem loop alive due_eq le => exact strain_tick mem loop due_eq le lone rests
  | @gone t mem loop cancelled asleep =>
    have hdrop := strain_drop mem
    have hpos : 0 < t.effort := by
      obtain ⟨tracker, job, wait⟩ := t
      cases wait with
      | «until» _ => simp [Task.effort]
      | turn | cancellation _ | forever => cases asleep
    have hle := t.effort_le_strain s.now
    have hsame : ((s.drop t).tell [.workerGone Evictor.name]).strain = (s.drop t).strain := rfl
    omega
  | setOff cancelled patient =>
    obtain ⟨t, hmem, hp⟩ := List.any_eq_true.mp patient
    show ((s.tasks.map (Task.setOff s.now)).map (Task.strain s.now)).sum < _
    rw [List.map_map]
    exact List.sum_lt_sum _ _ (fun u _ => u.strain_setOff_le s.now)
      ⟨t, hmem, Task.strain_setOff_lt hp⟩

/-- The tasks take one turn more at most at the time to which the clock jumps. -/
theorem strain_pass (lone : s.loops.length ≤ 1) (now : Nat) :
    ({ s with now } : Service).strain ≤ s.strain + 1 := by
  have hle := ({ s with now } : Service).strain_le
  have hge := s.effort_le_strain
  have hloops : ({ s with now } : Service).loops.length = s.loops.length := rfl
  have heffort : ({ s with now } : Service).effort = s.effort := rfl
  omega

/-- Whoever waits so many steps notices something that has set a closing off, behind some moments of
an exact clock. -/
structure Noticed (s : Service) (steps : Nat) (ms : List Moment) (trigger : Trigger) : Prop where
  noticed : s.awaitTrigger none steps = (s.after ms, some trigger)
  punctual : s.punctual ms = true
  calm : (s.after ms).turn? = none
  timeout : (s.after ms).timeout = s.timeout
  struck : (s.after ms).cancelled = true ∨ (s.after ms).interrupted = true

namespace Noticed

variable {steps : Nat} {trigger : Trigger}

/-- A step further from it. -/
theorem cons {m : Moment} {ms : List Moment} (spares : s.spares m = true)
    (timeout : (s.meet m).1.timeout = s.timeout)
    (step : s.awaitTrigger none (steps + 1) = (s.meet m).1.awaitTrigger none steps)
    (h : Noticed (s.meet m).1 steps ms trigger) : Noticed s (steps + 1) (m :: ms) trigger where
  noticed := step.trans h.noticed
  punctual := by rw [Service.punctual, spares, h.punctual, Bool.and_self]
  calm := h.calm
  timeout := h.timeout.trans timeout
  struck := h.struck

/-- It is noticed where there is no turn left. -/
theorem now (ht : s.turn? = none) (struck : s.cancelled = true ∨ s.interrupted = true)
    (steps : Nat) : ∃ trigger, Noticed s (steps + 1) [] trigger := by
  obtain ⟨trigger, hnow⟩ : ∃ trigger, s.awaitTrigger none (steps + 1) = (s, some trigger) := by
    rw [awaitTrigger, ht]
    rcases hc : s.cancelled with - | -
    · rcases struck with hs | hs
      · rw [hc] at hs
        cases hs
      · exact ⟨.interrupted, by simp [hs]⟩
    · exact ⟨.cancelled, by simp⟩
  exact ⟨trigger, hnow, rfl, ht, rfl, struck⟩

/-- Whoever waits lets each turn be taken. -/
theorem turn {ms : List Moment} (ht : s.turn? = some s') (h : Noticed s' steps ms trigger) :
    Noticed s (steps + 1) (.turn :: ms) trigger := by
  have hmeet : (s.meet .turn).1 = s' := by simp [meet, ht]
  rw [← hmeet] at h
  refine h.cons rfl ?_ ?_
  · rw [hmeet, (Turn.of_turn? ht).timeout]
  · rw [awaitTrigger, ht, hmeet]

/-- Where there is none, and nothing has set the closing off, the clock jumps to what is due
next. -/
theorem pass {ms : List Moment} {due : Nat} (ht : s.turn? = none)
    (waits : ¬ (s.cancelled = true ∨ s.interrupted = true)) (next : s.nextDue? = some due)
    (later : s.now < due) (h : Noticed { s with now := due } steps ms trigger) :
    Noticed s (steps + 1) (.pass due :: ms) trigger := by
  have hmeet : (s.meet (.pass due)).1 = { s with now := due } := by
    show ({ s with now := max s.now due } : Service) = _
    rw [Nat.max_eq_right (Nat.le_of_lt later)]
  rw [← hmeet] at h
  refine h.cons ?_ rfl ?_
  · simp [spares, ht, next]
  · obtain ⟨hc, hi⟩ := not_or.mp waits
    rw [awaitTrigger, ht, hmeet]
    dsimp only
    rw [if_neg hc, if_neg hi, next]
    rfl

end Noticed

/-- What is to set a closing off, and has not, is due by its time. -/
theorem Armed.next {time : Nat} (h : s.Armed time) (ht : s.turn? = none)
    (waits : ¬ (s.cancelled = true ∨ s.interrupted = true)) :
    ∃ due, s.nextDue? = some due ∧ s.now < due ∧ due ≤ time := by
  obtain ⟨t, hmem, -, due, hwait, hdue⟩ : ∃ t ∈ s.tasks, (t.job = .cancel ∨
      t.job = .interrupt) ∧ ∃ due, t.wait = .until due ∧ due ≤ time := by
    rcases h with hc | hi | hto
    · exact absurd (.inl hc) waits
    · exact absurd (.inr hi) waits
    · exact hto
  have hwaits : t.due? = some due := by simp [Task.due?, hwait]
  obtain ⟨first, hfirst, hle⟩ := s.nextDue?_le hmem hwaits
  exact ⟨first, hfirst, now_lt_of_next ht hfirst, Nat.le_trans hle hdue⟩

/-- Whoever waits for something that sets a closing off, notices it: each turn takes one off the
strain, and a jump, which adds one at most, brings the time closer. -/
theorem awaitTrigger_armed {time : Nat} (steps : Nat) (s : Service) (armed : s.Armed time)
    (lone : s.loops.length ≤ 1) (rests : 0 < s.evictor.worker.schedule.delay.millisUp)
    (enough : 2 * (time - s.now) + s.strain < steps) :
    ∃ ms trigger, Noticed s steps ms trigger := by
  induction steps generalizing s with
  | zero => omega
  | succ n ih =>
    rcases ht : s.turn? with - | s'
    · by_cases hstruck : s.cancelled = true ∨ s.interrupted = true
      · obtain ⟨trigger, hnow⟩ := Noticed.now ht hstruck n
        exact ⟨[], trigger, hnow⟩
      · obtain ⟨due, hnext, hlate, hdue⟩ := armed.next ht hstruck
        have hstrain := strain_pass lone due
        have hleft : 2 * (time - due) + ({ s with now := due } : Service).strain < n := by
          omega
        obtain ⟨ms, trigger, hnoticed⟩ := ih { s with now := due } armed lone rests hleft
        exact ⟨_, trigger, hnoticed.pass ht hstruck hnext hlate⟩
    · have hturn := Turn.of_turn? ht
      have hless := hturn.strain_lt lone rests
      have hnow := hturn.now_le
      have hlone : s'.loops.length ≤ 1 := hturn.length_loops_le.trans lone
      have hrests : 0 < s'.evictor.worker.schedule.delay.millisUp := by
        rw [hturn.evictor.1]
        exact rests
      obtain ⟨ms, trigger, hnoticed⟩ := ih s' (armed.turn hturn) hlone hrests (by omega)
      exact ⟨_, trigger, hnoticed.turn ht⟩

/-- The horizon is not in front of any task that is due. -/
theorem due_le_horizon {t : Task} {due : Nat} (mem : t ∈ s.tasks) (h : t.due? = some due) :
    due ≤ s.horizon := by
  have hle (ts : List Task) (time : Nat) :
      time ≤ ts.foldl (fun time t => max time (t.due?.getD 0)) time ∧
        ∀ t ∈ ts, ∀ due, t.due? = some due →
          due ≤ ts.foldl (fun time t => max time (t.due?.getD 0)) time := by
    induction ts generalizing time with
    | nil => exact ⟨Nat.le_refl _, nofun⟩
    | cons u us ih =>
      obtain ⟨hnow, hdue⟩ := ih (max time (u.due?.getD 0))
      obtain ⟨htime, hfirst⟩ := Nat.max_le.mp hnow
      refine ⟨htime, ?_⟩
      intro t ht due hd
      rcases List.mem_cons.mp ht with rfl | ht
      · have hvalue : t.due?.getD 0 = due := by rw [hd, Option.getD_some]
        rw [← hvalue]
        exact hfirst
      · exact hdue t ht due hd
  exact (hle s.tasks s.now).2 t mem due h

/-- **A closing that is set off later tells the truth** about the service at the time at which that
is noticed. -/
theorem awaitClosing_strikeAt (positive : s.timeout.isZero = false) (lone : s.loops.length ≤ 1)
    (rests : 0 < s.evictor.worker.schedule.delay.millisUp) (time : Nat) (tracker : TrackerId)
    (trigger : Trigger) :
    ∃ ms, (s.strikeAt time trigger).hushed.punctual ms = true ∧
      ((s.strikeAt time trigger).hushed.after ms).turn? = none ∧
      (((s.strikeAt time trigger).hushed.after ms).cancelled = true ∨
        ((s.strikeAt time trigger).hushed.after ms).interrupted = true) ∧
      Truthful ((s.strikeAt time trigger).hushed.after ms) tracker
        ((s.strikeAt time trigger).awaitClosing tracker none) := by
  obtain ⟨t, hspawn, hjob, hwait⟩ : ∃ t : Task, s.strikeAt time trigger = s.spawn t ∧
      (t.job = .cancel ∨ t.job = .interrupt) ∧ t.wait = .until time := by
    cases trigger with
    | cancelled => exact ⟨_, rfl, .inl rfl, rfl⟩
    | interrupted => exact ⟨_, rfl, .inr rfl, rfl⟩
  rw [hspawn]
  have hmem : t ∈ (s.spawn t).hushed.tasks := List.mem_append_right _ (List.mem_singleton.mpr rfl)
  have hother : t.isLoop = false := by
    rcases hjob with hj | hj <;> simp [Task.isLoop, hj]
  have hlone : (s.spawn t).hushed.loops.length ≤ 1 := by
    have hloops : (s.spawn t).hushed.loops = s.loops := (unmoved_spawn s hother).loops
    rw [hloops]
    exact lone
  have hdue : time ≤ (s.spawn t).horizon := due_le_horizon hmem (by simp [Task.due?, hwait])
  have henough : 2 * (time - (s.spawn t).hushed.now) + (s.spawn t).hushed.strain
      < (s.spawn t).hushed.stepBound (s.spawn t).horizon := by
    have hstrain := (s.spawn t).hushed.strain_le
    have heffort := (s.spawn t).hushed.effort_le
    unfold stepBound turnBound
    generalize (s.spawn t).hushed.now = now at *
    generalize hbound : (s.spawn t).hushed.courses.length
      + 2 * (s.spawn t).hushed.tasks.length + 4 + 1 = bound
    -- there are two steps at least for each millisecond, and one for each turn besides
    have hmul : ((s.spawn t).horizon - now) * 2 ≤ ((s.spawn t).horizon - now) * bound :=
      Nat.mul_le_mul_left _ (by omega)
    have hsplit : ((s.spawn t).horizon - now + 1) * bound
        = ((s.spawn t).horizon - now) * bound + bound := Nat.succ_mul _ _
    omega
  obtain ⟨ms, found, hnoticed⟩ := awaitTrigger_armed _ (s.spawn t).hushed
    (.inr (.inr ⟨t, hmem, hjob, time, hwait, Nat.le_refl _⟩)) hlone rests henough
  have htimeout : ((s.spawn t).hushed.after ms).timeout.isZero = false := by
    rw [hnoticed.timeout]
    exact positive
  exact ⟨ms, hnoticed.punctual, hnoticed.calm, hnoticed.struck,
    truthful_of_trigger htimeout (.refl _) hnoticed.noticed⟩

end Service

end CacheWarden
