import CacheWarden.Proofs.Service.Loop
import CacheWarden.Service.Closing
import Mathlib
/-!
The pace of the eviction loop.

The loop sleeps until its delay is over since each of its clears (`Paced.rested`), so
that two clears of it are never closer than that (`Paced.apart`).  This needs no exact
clock: a clock that goes too far only makes the loop late.  It does need that there is
only one loop, and that it is there before the first clear (`Paced.lone`,
`Paced.fresh`).

No turn changes any of this, nor anything else that happens to a service, up to the
end of a closing (`Paced.awaitClosing`).
-/

namespace CacheWarden

/-- The clear is one of the loop, and starts within a while from a time on, both in nanoseconds. -/
def Sweep.isTickIn (t w : Nat) (v : Sweep) : Bool :=
  v.scheduled && decide (t ≤ v.start * nanosPerMilli ∧ v.start * nanosPerMilli ≤ t + w)

namespace Service

/-! ### Clears of the loop -/

/-- The clears that the loop has done, earliest first. -/
def ticks (s : Service) : List Sweep := s.sweeps.filter (·.scheduled)

/-- A tick is a clear of the loop, which starts now. -/
theorem ticks_tick (s : Service) (t : Task) :
    (s.tick t).ticks = s.ticks ++ [⟨true, Evictor.region, s.now, s.sweepEnd, s.swept.2⟩] := by
  obtain ⟨notices, htick⟩ := tick_eq s t
  rw [htick, clearCache_eq]
  exact List.filter_append ..

/-- Behind a tick, the loop sleeps. -/
theorem loops_tick (s : Service) {t : Task} (loop : t.isLoop = true) :
    (s.tick t).loops
      = s.loops ++
        [{ t with wait := .until (s.sweepEnd + s.evictor.worker.schedule.delay.millisUp) }] := by
  obtain ⟨notices, htick⟩ := tick_eq s t
  rw [htick, clearCache_eq]
  show (s.tasks ++ [_]).filter Task.isLoop = _
  rw [List.filter_append, List.filter_cons_of_pos (by exact loop), List.filter_nil]
  rfl

/-- How many loops are still to come at most: one for each call that has set the flag and has yet to
start its loop, and one if the flag is not set. -/
def chances (s : Service) (won : Nat) : Nat := won + if s.evictor.served then 0 else 1

/-- The loop has kept its pace, and is going to. -/
structure Paced (delay : Span) (won : Nat) (s : Service) : Prop where
  sleeps : s.evictor.worker.schedule.delay = delay
  lone : s.chances won + s.loops.length ≤ 1
  fresh : 0 < s.chances won → s.ticks = []
  apart : s.ticks.Pairwise fun v w => v.start + delay.millisUp ≤ w.start
  rested : ∀ t ∈ s.loops, ∀ w ∈ s.ticks, ∃ due, t.due? = some due ∧ w.start + delay.millisUp ≤ due

/-- Nothing changed that the pace depends on, but that the loop may have ended. -/
structure Idle (s s' : Service) : Prop where
  worker : s'.evictor.worker = s.evictor.worker
  served : s'.evictor.served = s.evictor.served
  ticks : s'.ticks = s.ticks
  loops : s'.loops.Sublist s.loops

theorem Unmoved.idle {s s' : Service} (h : Unmoved s s') : Idle s s' where
  worker := by rw [h.evictor]
  served := by rw [h.evictor]
  ticks := by rw [ticks, ticks, h.sweeps]
  loops := by rw [h.loops]

namespace Paced

variable {delay : Span} {won : Nat} {s s' : Service}

/-- A service at its start. -/
theorem start (epoch : Int) (timeout : Span) (cache : Cache) (worker : Worker)
    (courses : List Course) :
    Paced worker.schedule.delay 0 (start epoch timeout cache worker courses) :=
  ⟨rfl, Nat.le_refl 1, fun _ => rfl, .nil, nofun⟩

theorem idle (h : Paced delay won s) (hi : Idle s s') : Paced delay won s' := by
  have hchances : s'.chances won = s.chances won := by rw [chances, chances, hi.served]
  refine ⟨hi.worker ▸ h.sleeps, ?_, ?_, ?_, ?_⟩
  · have hlone := h.lone
    have hloops := hi.loops.length_le
    omega
  · rw [hchances, hi.ticks]
    exact h.fresh
  · rw [hi.ticks]
    exact h.apart
  · intro t ht
    rw [hi.ticks]
    exact h.rested t (hi.loops.subset ht)

theorem giveUp (h : Paced delay won s) (limit : Option Nat) : Paced delay won (s.giveUp limit) :=
  h.idle ⟨rfl, rfl, rfl, .refl _⟩

theorem tell (h : Paced delay won s) (ns : List Notice) : Paced delay won (s.tell ns) :=
  h.idle ⟨rfl, rfl, rfl, .refl _⟩

/-! ### Starts -/

/-- A call sets the flag. -/
theorem flag (h : Paced delay won s) (unserved : s.evictor.served = false) :
    Paced delay (won + 1) { s with evictor := { s.evictor with served := true } } := by
  have hchances : ({ s with evictor := { s.evictor with served := true } } : Service).chances
      (won + 1) = s.chances won := by
    unfold chances
    rw [unserved]
    rfl
  refine ⟨h.sleeps, ?_, ?_, h.apart, h.rested⟩
  · rw [hchances]
    exact h.lone
  · rw [hchances]
    exact h.fresh

/-- The call that has set the flag starts its loop. -/
theorem spawn (h : Paced delay (won + 1) s) {t : Task} (loop : t.isLoop = true) :
    Paced delay won (s.spawn t) := by
  have hlone := h.lone
  have hchances : s.chances (won + 1) = (s.spawn t).chances won + 1 := Nat.add_right_comm _ _ _
  have hnone : s.ticks = [] := h.fresh (by omega)
  have hidle : s.loops = [] := List.eq_nil_of_length_eq_zero (by omega)
  refine ⟨h.sleeps, ?_, fun _ => hnone, ?_, ?_⟩
  · rw [loops_spawn, if_pos loop, hidle]
    show _ + 1 ≤ 1
    omega
  · rw [show (s.spawn t).ticks = [] from hnone]
    exact .nil
  · intro _ _ w hw
    rw [show (s.spawn t).ticks = [] from hnone] at hw
    cases hw

theorem serve (h : Paced delay won s) (tracker : TrackerId) :
    Paced delay won (s.serve tracker).1 := by
  rcases hserved : s.evictor.served with - | -
  · rcases henabled : s.evictor.worker.enabled with - | -
    · obtain ⟨ns, hserve⟩ := Evictor.serve_disabled henabled
      unfold Service.serve
      rw [hserve]
      exact h.idle ⟨rfl, rfl, rfl, .refl _⟩
    · unfold Service.serve
      rw [Evictor.serve_first henabled hserved]
      exact ((h.flag hserved).tell []).spawn rfl
  · exact h.idle (unmoved_serve s tracker hserved).idle

/-! ### Turns -/

/-- A loop that has its first turn has not cleared yet. -/
theorem ticks_of_new (h : Paced delay won s) {t : Task} (mem : t ∈ s.tasks) (loop : t.isLoop = true)
    (new : t.isNew = true) : s.ticks = [] := by
  refine List.eq_nil_iff_forall_not_mem.mpr fun w hw => ?_
  obtain ⟨due, hdue, -⟩ := h.rested t (List.mem_filter.mpr ⟨mem, loop⟩) w hw
  have hwait : t.wait = .turn := by simpa [Task.isNew] using new
  simp [Task.due?, hwait] at hdue

/-- A loop that has its turn goes on in its own place. -/
theorem length_loops_le (h : Paced delay won s) (ht : Turn s s')
    (hchances : s'.chances won = s.chances won) : s'.chances won + s'.loops.length ≤ 1 := by
  have hlone := h.lone
  have hloops := ht.length_loops_le
  omega

theorem wake (h : Paced delay won s) {t : Task} (mem : t ∈ s.tasks) (loop : t.isLoop = true)
    (new : t.isNew = true) : Paced delay won ((s.drop t).wake t) := by
  have hnone : ((s.drop t).wake t).ticks = [] := h.ticks_of_new mem loop new
  refine ⟨h.sleeps, h.length_loops_le (.wake mem loop new) rfl, fun _ => hnone, ?_, ?_⟩
  · rw [hnone]
    exact .nil
  · intro _ _ w hw
    rw [hnone] at hw
    cases hw

/-- All clears of the loop are a delay ago when it is due. -/
theorem le_now_of_due (h : Paced delay won s) {t : Task} {due : Nat} (mem : t ∈ s.loops)
    (due_eq : t.due? = some due) (le : due ≤ s.now) :
    ∀ w ∈ s.ticks, w.start + delay.millisUp ≤ s.now := by
  intro w hw
  obtain ⟨_, hdue, hle⟩ := h.rested t mem w hw
  obtain rfl := Option.some.inj (due_eq.symm.trans hdue)
  exact Nat.le_trans hle le

theorem tick (h : Paced delay won s) {t : Task} {due : Nat} (mem : t ∈ s.tasks)
    (loop : t.isLoop = true) (alive : s.cancelled = false) (due_eq : t.due? = some due)
    (le : due ≤ s.now) : Paced delay won ((s.drop t).tick t) := by
  have hmem : t ∈ s.loops := List.mem_filter.mpr ⟨mem, loop⟩
  have hlone := h.lone
  have hpos : 0 < s.loops.length := List.length_pos_of_mem hmem
  have hothers : (s.drop t).loops = [] := by
    rw [loops_drop]
    refine List.eq_nil_of_length_eq_zero ?_
    rw [List.length_erase_of_mem hmem]
    omega
  have hpast := h.le_now_of_due hmem due_eq le
  have hend : s.now ≤ (s.drop t).sweepEnd := Nat.le_add_right _ _
  obtain ⟨hworker, hserved⟩ := (Turn.tick mem loop alive due_eq le).evictor
  have hchances : ((s.drop t).tick t).chances won = s.chances won := by
    rw [chances, chances, hserved]
  refine ⟨hworker ▸ h.sleeps, h.length_loops_le (.tick mem loop alive due_eq le) hchances, ?_, ?_,
    ?_⟩
  · intro hmore
    rw [hchances] at hmore
    omega
  · rw [ticks_tick, List.pairwise_append]
    refine ⟨h.apart, List.pairwise_singleton _ _, ?_⟩
    intro v hv w hw
    rw [List.mem_singleton.mp hw]
    exact hpast v hv
  · -- the loop, which is the only one, sleeps for the delay since the end of the clear
    intro u hu w hw
    rw [loops_tick _ loop, hothers, List.nil_append, List.mem_singleton] at hu
    rw [ticks_tick, List.mem_append, List.mem_singleton] at hw
    rw [hu]
    refine ⟨_, rfl, ?_⟩
    rw [show (s.drop t).evictor.worker.schedule.delay = delay from h.sleeps]
    rcases hw with hw | rfl
    · have := hpast w hw
      omega
    · exact Nat.add_le_add_right hend _

theorem setOff (h : Paced delay won s) (cancelled : s.cancelled = true)
    (patient : s.tasks.any Task.isPatient = true) :
    Paced delay won { s with tasks := s.tasks.map (Task.setOff s.now) } := by
  refine ⟨h.sleeps, h.length_loops_le (.setOff cancelled patient) rfl, h.fresh, h.apart, ?_⟩
  intro t ht w hw
  obtain ⟨u, hu, rfl⟩ : ∃ u ∈ s.loops, u.setOff s.now = t := by
    replace ht : t ∈ (s.tasks.map (Task.setOff s.now)).filter Task.isLoop := ht
    rw [List.filter_map, isLoop_comp_setOff] at ht
    exact List.mem_map.mp ht
  obtain ⟨due, hdue, hle⟩ := h.rested u hu w hw
  -- the loop sleeps, so it does not learn of the cancellation this way
  refine ⟨due, ?_, hle⟩
  obtain ⟨tracker, job, wait⟩ := u
  cases wait with
  | «until» _ => exact hdue
  | turn | cancellation _ | forever => cases hdue

theorem turn (h : Paced delay won s) (ht : Turn s s') : Paced delay won s' := by
  cases ht with
  | chore other => exact h.idle (unmoved_chore s other).idle
  | wake mem loop new => exact h.wake mem loop new
  | tick mem loop alive due_eq le => exact h.tick mem loop alive due_eq le
  | @gone t mem loop cancelled asleep =>
    refine h.idle ⟨rfl, rfl, rfl, ?_⟩
    show (s.drop t).loops.Sublist s.loops
    rw [loops_drop]
    exact List.erase_sublist
  | setOff cancelled patient => exact h.setOff cancelled patient

/-! ### Moments -/

theorem meet (h : Paced delay won s) (m : Moment) : Paced delay won (s.meet m).1 := by
  cases m with
  | turn =>
    show Paced delay won (s.turn?.getD s)
    rcases ht : s.turn? with - | s'
    · exact h
    · exact h.turn (.of_turn? ht)
  | serve tracker => exact h.serve tracker
  | clear =>
    show Paced delay won (s.clearCache false).1
    rw [clearCache_eq]
    refine h.idle ⟨Evictor.record_worker .., Evictor.record_served .., ?_, .refl _⟩
    -- a clear for a caller is none of the loop
    show (s.sweeps ++ [_]).filter _ = s.sweeps.filter _
    rw [List.filter_append]
    exact List.append_nil _
  | pass _ | put _ _ _ | get _ _ | clearAll _ | cancel => exact h.idle ⟨rfl, rfl, rfl, .refl _⟩
  | cancelAt _ | interruptAt _ | spawn _ _ => exact h.idle (unmoved_spawn s rfl).idle

theorem after (h : Paced delay won s) (ms : List Moment) : Paced delay won (s.after ms) := by
  induction ms generalizing s with
  | nil => exact h
  | cons m ms ih => exact ih (h.meet m)

theorem run (h : Paced delay won s) (limit steps : Nat) : Paced delay won (s.run limit steps) := by
  obtain ⟨ms, hms, -⟩ := s.run_eq_after limit steps
  rw [hms]
  exact h.after ms

/-! ### Closings -/

theorem awaitTasks (h : Paced delay won s) (tracker : TrackerId) (deadline : Nat)
    (limit : Option Nat) (steps : Nat) :
    Paced delay won (s.awaitTasks tracker deadline limit steps).1 := by
  induction steps generalizing s with
  | zero => exact h
  | succ n ih =>
    unfold Service.awaitTasks
    rcases ht : s.turn? with - | s'
    · dsimp only
      split
      · exact h.tell _
      · split
        · exact ih (h.idle ⟨rfl, rfl, rfl, .refl _⟩)
        · split
          · exact h.idle ⟨rfl, rfl, rfl, .refl _⟩
          · exact h.giveUp limit
    · exact ih (h.turn (.of_turn? ht))

theorem close (h : Paced delay won s) (tracker : TrackerId) (limit : Option Nat) :
    Paced delay won (s.close tracker limit).1 := by
  have hclosed : Paced delay won { s.cancel with closed := tracker :: s.closed } :=
    h.idle ⟨rfl, rfl, rfl, .refl _⟩
  unfold Service.close
  dsimp only
  split
  · exact hclosed.tell _
  · split
    · exact hclosed.tell _
    · exact hclosed.awaitTasks ..

theorem awaitTrigger (h : Paced delay won s) (limit : Option Nat) (steps : Nat) :
    Paced delay won (s.awaitTrigger limit steps).1 := by
  induction steps generalizing s with
  | zero => exact h
  | succ n ih =>
    unfold Service.awaitTrigger
    rcases ht : s.turn? with - | s'
    · dsimp only
      split
      · exact h
      · split
        · exact h
        · split
          · exact ih (h.idle ⟨rfl, rfl, rfl, .refl _⟩)
          · exact h.giveUp limit
    · exact ih (h.turn (.of_turn? ht))

theorem awaitClosing (h : Paced delay won s) (tracker : TrackerId) (limit : Option Nat) :
    Paced delay won (s.awaitClosing tracker limit).1 := by
  have hhushed : Paced delay won { s with interrupted := false } := h.idle ⟨rfl, rfl, rfl, .refl _⟩
  have htrigger := hhushed.awaitTrigger limit
    (({ s with interrupted := false } : Service).stepBound
      (limit.getD ({ s with interrupted := false } : Service).horizon))
  unfold Service.awaitClosing
  dsimp only
  split
  · rename_i heq
    rw [heq] at htrigger
    exact htrigger
  · rename_i heq
    rw [heq] at htrigger
    exact (htrigger.tell _).close tracker limit

/-! ### Steps -/

theorem act (h : Paced delay won s) (x : Step) : Paced delay won (s.act x).1 := by
  by_cases plain : x.isPlain = true
  · obtain ⟨ms, hms, -⟩ := s.act_eq_after plain
    rw [hms]
    exact h.after ms
  · cases x with
    | serve tracker => exact h.serve tracker
    | close tracker => exact h.close tracker none
    | awaitClosing tracker ms => exact h.awaitClosing tracker _
    | advance _ | fill _ _ | get _ _ | clear | cancel | cancelAfter _ | spawn _ _ | spawnPatient _ _
    | interruptAfter _ => exact absurd rfl plain

end Paced

/-! ### How often the loop clears -/

/-- Times that are so far apart from one another fit into a window only so often. -/
theorem length_le_of_apart {gap : Nat} (pos : 0 < gap) {times : List Nat} {t w : Nat}
    (apart : times.Pairwise fun a b => a + gap ≤ b) (inside : ∀ a ∈ times, t ≤ a ∧ a ≤ t + w) :
    times.length ≤ 1 + w / gap := by
  induction times generalizing t w with
  | nil => exact Nat.zero_le _
  | cons a times ih =>
    obtain ⟨hlater, hrest⟩ := List.pairwise_cons.mp apart
    obtain ⟨⟨hfrom, -⟩, hinside⟩ := List.forall_mem_cons.mp inside
    rw [List.length_cons, Nat.add_comm]
    refine Nat.add_le_add_left ?_ 1
    -- the others are in what is left of the window behind the gap
    rcases Nat.lt_or_ge w gap with hshort | hlong
    · have hnone : times = [] := by
        refine List.eq_nil_iff_forall_not_mem.mpr fun b hb => ?_
        have := hlater b hb
        have := (hinside b hb).2
        omega
      rw [hnone]
      exact Nat.zero_le _
    · have hless := ih (t := t + gap) (w := w - gap) hrest fun b hb => by
        have := hlater b hb
        have := (hinside b hb).2
        omega
      rw [Nat.div_eq_sub_div pos hlong, Nat.add_comm]
      exact hless

/-- In a while, the loop starts no more clears than its delay fits into it, and one. -/
theorem Paced.countP_le {delay : Span} {won : Nat} {s : Service} (h : Paced delay won s)
    (pos : 0 < delay.nanos) (t w : Nat) :
    s.sweeps.countP (Sweep.isTickIn t w) ≤ 1 + w / delay.nanos := by
  have hdelay : delay.nanos ≤ delay.millisUp * nanosPerMilli := by
    unfold Span.millisUp nanosPerMilli
    omega
  let times := (s.sweeps.filter (Sweep.isTickIn t w)).map fun v => v.start * nanosPerMilli
  have hlength : s.sweeps.countP (Sweep.isTickIn t w) = times.length := by
    rw [List.length_map, List.countP_eq_length_filter]
  rw [hlength]
  refine length_le_of_apart pos (t := t) ?_ ?_
  · have hsub : (s.sweeps.filter (Sweep.isTickIn t w)).Sublist s.ticks := by
      refine List.monotone_filter_right _ fun v hv => ?_
      exact (Bool.and_eq_true_iff.mp hv).1
    refine List.pairwise_map.mpr ((h.apart.sublist hsub).imp ?_)
    intro v w hvw
    have hmul := Nat.mul_le_mul_right nanosPerMilli hvw
    rw [Nat.add_mul] at hmul
    omega
  · intro a ha
    obtain ⟨v, hv, rfl⟩ := List.mem_map.mp ha
    exact of_decide_eq_true (Bool.and_eq_true_iff.mp (List.mem_filter.mp hv).2).2

end Service

end CacheWarden
