import CacheWarden.App
import CacheWarden.Proofs.Service.Trigger
/-!
The shutdown of an application.

The application waits for a closing, tells that it has stopped, and passes on what the
closing came to (`awaitClosing_eq`).  Its loop does not hold it up: a loop that sleeps
is gone at once (`Truthful.at_once`), however long it would have slept and however
little time there is to end in.

`shutdown_law` puts this together with what is true of all closings.
-/

namespace CacheWarden

namespace Service

variable {s : Service} {tracker : TrackerId} {r : Service × Closing}

/-- A closing is never given up. -/
theorem Truthful.decided (h : Truthful s tracker r) : r.2 ≠ .undecided := by
  by_cases hnone : s.running tracker s.deadline = []
  · rw [(h.complete hnone).1]
    nofun
  · rw [(h.timedOut hnone).1]
    nofun

/-- A closing with no task to wait for but a loop that sleeps ends well, and at once. -/
theorem Truthful.at_once (h : Truthful s tracker r) (positive : s.timeout.isZero = false)
    (asleep : ∀ t ∈ s.tasks, t.tracker = some tracker → t.isDozing = true) :
    r.2 = .complete ∧ r.1.now = s.now := by
  have hnone (time : Nat) (later : s.now < time) : s.running tracker time = [] := by
    rw [running_eq, List.map_eq_nil_iff, List.filter_eq_nil_iff]
    intro t hmem
    rcases htracker : t.tracker == some tracker with - | -
    · simp
    · -- the loop ends as soon as it learns of the cancellation
      obtain ⟨hloop, hdue⟩ := Bool.and_eq_true_iff.mp (asleep t hmem (by simpa using htracker))
      have hends := Task.ending?_of_asleep s.now hloop hdue
      simp [Task.outlasts_of_ending? hends later]
  have hlate : s.now < s.deadline := Nat.lt_add_of_pos_right (Span.millisUp_pos positive)
  obtain ⟨hcomplete, hend⟩ := h.complete (hnone _ hlate)
  refine ⟨hcomplete, hend.trans ?_⟩
  rw [lastEnd, hnone _ (Nat.lt_succ_self _)]
  rfl

end Service

namespace App

/-- The application passes on what its closing came to. -/
theorem awaitClosing_eq (a : App) (limit : Option Nat)
    (h : (a.service.awaitClosing tracker limit).2 ≠ .undecided) :
    a.awaitClosing limit =
      ({ a with service := (a.service.awaitClosing tracker limit).1.tell [.stopped] },
        (a.service.awaitClosing tracker limit).2) := by
  unfold awaitClosing
  rcases hr : a.service.awaitClosing tracker limit with ⟨s, c⟩
  rw [hr] at h
  cases c with
  | complete | timedOut => rfl
  | undecided => exact absurd rfl h

end App

/-- The law of the shutdown, for a service at any point of its life. -/
structure ShutdownLaw (s : Service) : Prop where
  /-- A closing tells the truth about the tasks of its tracker. -/
  direct : ∀ tracker, s.Truthful tracker (s.close tracker none)
  /-- So does one that is set off by a cancellation, or by an interrupt where there is no turn to
  take before; and all three come to the same. -/
  struck : ∀ tracker trigger, (trigger = .interrupted → s.turn? = none) →
    s.Truthful tracker ((s.strike trigger).awaitClosing tracker none) ∧
      Service.SameEnd tracker (s.close tracker none)
        ((s.strike trigger).awaitClosing tracker none)
  /-- Where it is set off later, the service lives on until that is noticed, and it tells the truth
  about the service then; but a loop that never sleeps would keep the clock from going on. -/
  later : s.loops.length ≤ 1 → 0 < s.evictor.worker.schedule.delay.millisUp →
    ∀ time tracker trigger, ∃ ms, (s.strikeAt time trigger).hushed.punctual ms = true ∧
      ((s.strikeAt time trigger).hushed.after ms).turn? = none ∧
      (((s.strikeAt time trigger).hushed.after ms).cancelled = true ∨
        ((s.strikeAt time trigger).hushed.after ms).interrupted = true) ∧
      ((s.strikeAt time trigger).hushed.after ms).Truthful tracker
        ((s.strikeAt time trigger).awaitClosing tracker none)
  /-- An application passes on what its closing comes to, and changes nothing of it. -/
  passed : ∀ a : App, a.service = s →
    (s.awaitClosing App.tracker none).2 ≠ .undecided →
    a.awaitClosing none =
      ({ a with service := (s.awaitClosing App.tracker none).1.tell [.stopped] },
        (s.awaitClosing App.tracker none).2)
  /-- An application whose loop sleeps, and that has no other task, stops at once. -/
  asleep : (∀ t ∈ s.tasks, t.tracker = some App.tracker → t.isDozing = true) →
    ∀ (a : App) (trigger : Trigger), (trigger = .interrupted → s.turn? = none) →
      a.service = s.strike trigger →
      (a.awaitClosing none).2 = .complete ∧ (a.awaitClosing none).1.service.now = s.now

/-- **A shutdown tells the truth about the tasks of its tracker**, at any point of the life of any
service with a time to end in, whatever its tasks are, and whatever sets it off. -/
theorem shutdown_law (s : Service) (positive : s.timeout.isZero = false) : ShutdownLaw s where
  direct := fun tracker => s.close_truthful tracker positive
  struck := by
    intro tracker trigger calm
    have hdirect := s.close_truthful tracker positive
    have hstruck := Service.awaitClosing_strike positive tracker trigger calm
    exact ⟨hstruck, hdirect.sameEnd hstruck⟩
  later := fun lone rests time tracker trigger =>
    Service.awaitClosing_strikeAt positive lone rests time tracker trigger
  passed := by
    rintro a rfl decided
    exact a.awaitClosing_eq none decided
  asleep := by
    intro asleep a trigger calm hservice
    have hstruck := Service.awaitClosing_strike positive App.tracker trigger calm
    rw [← hservice] at hstruck
    obtain ⟨hcomplete, hnow⟩ := hstruck.at_once positive asleep
    rw [a.awaitClosing_eq none hstruck.decided]
    exact ⟨hcomplete, hnow⟩

/-- A service with a second to end in.  Its loop sleeps, one task ends five milliseconds behind the
cancellation, and one never does. -/
def reluctant : Service :=
  (Service.start 0 Settings.forTests.shutdownTimeout .empty (.ofSettings .forTests) []).after
    [.serve App.tracker, .turn, .spawn App.tracker (.cancellation (some 5)),
      .spawn App.tracker (.cancellation none)]

/-- One task is left when the second is over, whatever has set the closing off. -/
theorem shutdown_law_reluctant :
    reluctant.timeout.isZero = false ∧ reluctant.turn? = none ∧
      (∀ trigger, ((reluctant.strike trigger).awaitClosing App.tracker none).2 = .timedOut ∧
        ((reluctant.strike trigger).awaitClosing App.tracker none).1.now = 1000) ∧
      (reluctant.close App.tracker none).1.pending App.tracker = 1 := by
  have positive : reluctant.timeout.isZero = false := by decide
  have calm : reluctant.turn? = none := by
    rw [← Option.isNone_iff_eq_none]
    decide
  have hrunning : reluctant.running App.tracker reluctant.deadline = [none] := by decide
  have law := shutdown_law reluctant positive
  refine ⟨positive, calm, ?_, ?_⟩
  · intro trigger
    have hstruck := (law.struck App.tracker trigger fun _ => calm).1
    have hlate : reluctant.running App.tracker reluctant.deadline ≠ [] := by
      rw [hrunning]
      nofun
    obtain ⟨hclosing, hnow⟩ := hstruck.timedOut hlate
    have hdeadline : reluctant.deadline = 1000 := by decide
    exact ⟨hclosing, hnow.trans hdeadline⟩
  · have hpending := (law.direct App.tracker).pending
    rw [hrunning] at hpending
    exact hpending

end CacheWarden
