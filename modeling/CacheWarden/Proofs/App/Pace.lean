import CacheWarden.Proofs.App.OneLoop
import CacheWarden.Proofs.App.Startup
import CacheWarden.Proofs.Service.Pace
import CacheWarden.Proofs.Settings.Acceptance
import Mathlib
/-!
The pace of an application's clears.

Whatever an application goes through, its loop keeps its pace (`Scene.Paced.behind`):
calls that start the loop at the same time, anything that happens beside them, whole
steps, closings, and others who work on the cache that it shares.  With settings that
were accepted the delay between two clears is longer than nothing, so there are never
many clears in a short time; and they are switched off only where the document says so
(`Settings.steady`).
-/

namespace CacheWarden

/-- What an application goes through. -/
inductive Episode where
  /-- Something happens to it, or to the calls that start its loop. -/
  | happening (h : Happening)
  /-- Somebody else does something to the regions or to the registry. -/
  | operation (op : Operation)
  /-- A whole step. -/
  | step (x : Step)
  /-- It waits for its end. -/
  | finish

namespace App

variable {delay : Span} {won : Nat} {a : App}

/-! ### Steps -/

theorem paced_serve (h : a.service.Paced delay won) : a.serve.service.Paced delay won := by
  obtain ⟨ns, hserve⟩ := a.serve_eq
  rw [hserve]
  exact (h.serve tracker).tell ns

theorem paced_awaitClosing (h : a.service.Paced delay won) (limit : Option Nat) :
    (a.awaitClosing limit).1.service.Paced delay won := by
  have hclosing := h.awaitClosing tracker limit
  unfold awaitClosing
  rcases hr : a.service.awaitClosing tracker limit with ⟨s, c⟩
  rw [hr] at hclosing
  cases c with
  | complete | timedOut => exact hclosing.tell _
  | undecided => exact hclosing

theorem paced_finish (h : a.service.Paced delay won) : a.finish.1.service.Paced delay won := by
  have hclosing := paced_awaitClosing h none
  unfold finish
  rcases hr : a.awaitClosing none with ⟨b, c⟩
  rw [hr] at hclosing
  cases c with
  | timedOut => exact hclosing.tell _
  | complete | undecided => exact hclosing

theorem paced_act (h : a.service.Paced delay won) (x : Step) :
    (a.act x).1.service.Paced delay won := by
  have hx := h.act x
  cases x with
  | serve tracker => exact paced_serve h
  | awaitClosing tracker ms => exact paced_awaitClosing h _
  | advance _ | fill _ _ | get _ _ | clear | cancel | cancelAfter _ | spawn _ _ | spawnPatient _ _
  | close _ | interruptAfter _ => exact hx

theorem paced_step (h : a.service.Paced delay won) (x : Step) :
    (a.step x).1.service.Paced delay won :=
  (paced_act h x).run ..

theorem paced_meet (h : a.service.Paced delay won) {m : Moment} (other : m.isServe = false) :
    (a.meet m).1.service.Paced delay won := by
  rw [meet_eq a other]
  exact h.meet m

end App

namespace Scene

/-- What an episode makes of an application and its calls. -/
def live (c : Scene) : Episode → Scene
  | .happening h => c.step h
  | .operation op => { c with app := c.app.undergo (.operation op) }
  | .step x => { c with app := (c.app.step x).1 }
  | .finish => { c with app := c.app.finish.1 }

/-- The application and its calls behind some episodes. -/
def behind (c : Scene) (es : List Episode) : Scene := es.foldl live c

/-- The calls that have set the flag and have yet to start the loop. -/
def won (c : Scene) : Nat := c.starters.countP (·.stage == .won)

/-- The loop keeps its pace, with all the calls that may start it. -/
def Paced (delay : Span) (c : Scene) : Prop := c.app.service.Paced delay c.won

namespace Paced

variable {delay : Span} {c : Scene}

/-- A part of a call sets the flag, or starts the loop of the call that has set it. -/
theorem part (h : c.Paced delay) {i : Nat} {s : Starter} (present : c.starters[i]? = some s)
    {a : App} {stage : Stage} (hp : Part c.app s.way s.stage a stage) :
    Paced delay ⟨a, c.starters.set i ⟨s.way, stage⟩⟩ := by
  have hcount := countP_set_add (p := fun s : Starter => s.stage == .won) present ⟨s.way, stage⟩
  show a.service.Paced delay ((c.starters.set i ⟨s.way, stage⟩).countP (·.stage == .won))
  replace h : c.app.service.Paced delay (c.starters.countP (·.stage == .won)) := h
  generalize (c.starters.set i ⟨s.way, stage⟩).countP (·.stage == .won) = n at hcount ⊢
  generalize c.starters.countP (·.stage == .won) = n₀ at hcount h
  obtain ⟨way, stage₀⟩ := s
  cases hp with
  | win enabled first =>
    obtain rfl : n = n₀ + 1 := hcount
    exact h.flag first
  | start =>
    obtain rfl : n + 1 = n₀ := hcount
    exact h.spawn rfl
  | lose late ns quiet | report handle ns told =>
    obtain rfl : n = n₀ := hcount
    exact h.tell ns
  | rest handle =>
    obtain rfl : n = n₀ := hcount
    exact h

theorem step (h : c.Paced delay) (x : Happening) : (c.step x).Paced delay := by
  cases x with
  | call way =>
    show Service.Paced delay ((c.starters ++ [_]).countP _) _
    rw [List.countP_append]
    exact h
  | go i =>
    rcases hi : c.starters[i]? with - | s
    · have hstep : c.step (.go i) = c := by simp [Scene.step, hi]
      rw [hstep]
      exact h
    · rw [step_go c hi]
      exact h.part hi (c.app.part_proceed s.way s.stage)
  | moment m other => exact App.paced_meet h other
  | shut tracker => exact Service.Paced.idle h ⟨rfl, rfl, rfl, .refl _⟩

theorem live (h : c.Paced delay) (e : Episode) : (c.live e).Paced delay := by
  cases e with
  | happening x => exact h.step x
  | operation op => exact Service.Paced.idle h ⟨rfl, rfl, rfl, .refl _⟩
  | step x => exact App.paced_step h x
  | finish => exact App.paced_finish h

/-- Whatever an application goes through, its loop keeps its pace. -/
theorem behind (h : c.Paced delay) (es : List Episode) : (c.behind es).Paced delay := by
  induction es generalizing c with
  | nil => exact h
  | cons e es ih => exact ih (h.live e)

end Paced

end Scene

/-! ### Applications at their start -/

namespace App

/-- An application that has started with settings: with a registry of its own, or over one that
there was. -/
inductive Starts (settings : Settings) (a : App) : Prop
  | new (epoch : Int) (cache : Cache) (h : App.new settings epoch cache = .ok a)
  | ofCache (epoch : Int) (cache : Cache) (feed : RegionId)
      (h : App.ofCache settings epoch cache feed = .ok a)

/-- The application, whose clears are going to take some courses. -/
def withCourses (a : App) (courses : List Course) : App :=
  { a with service := { a.service with courses } }

theorem paced_of_ofCache {settings : Settings} {epoch : Int} {cache : Cache} {feed : RegionId}
    (h : ofCache settings epoch cache feed = .ok a) (courses : List Course) :
    (a.withCourses courses).service.Paced (Worker.ofSettings settings).schedule.delay 0 := by
  unfold ofCache attempt at h
  split at h
  · cases h
  · split at h
    · cases h
      exact .start epoch settings.shutdownTimeout cache (.ofSettings settings) courses
    · cases h

theorem Starts.paced {settings : Settings} {a : App} (h : Starts settings a)
    (courses : List Course) :
    (a.withCourses courses).service.Paced (Worker.ofSettings settings).schedule.delay 0 := by
  cases h with
  | ofCache epoch cache feed h => exact paced_of_ofCache h courses
  | new epoch cache h =>
    unfold App.new at h
    split at h
    · cases h
    · rename_i own feed ns _
      rcases hown : App.ofCache settings epoch own feed with e | b
      · rw [hown] at h
        cases h
      · rw [hown] at h
        cases h
        exact (paced_of_ofCache hown courses).tell ns

end App

/-! ### Settings that were accepted -/

namespace Settings

/-- What the settings of a text are good for. -/
structure Steady (text : String) (s : Settings) (e : Eviction) (initial fixed : Span) : Prop where
  /-- They have both delays, the fixed one longer than nothing; and so has the worker. -/
  scheduled : s.Scheduled e initial fixed
  /-- Eviction is off only where the document says so. -/
  off : s.isEvictionEnabled = false → ∃ d, Yaml.parse text = .ok d ∧ d.SwitchesOff
  /-- In any while, an application's loop starts no more clears than the fixed delay fits into it,
  and one; whatever courses the clears take, and whatever else the application goes through. -/
  rate : ∀ a, App.Starts s a → ∀ courses es t w,
    (Scene.behind ⟨a.withCourses courses, []⟩ es).app.service.sweeps.countP (Sweep.isTickIn t w)
      ≤ 1 + w / fixed.nanos

/-- **Accepted settings neither let the loop spin nor switch it off unasked.** -/
theorem steady {text : String} {s : Settings} (accepted : parse text = .ok s) :
    ∃ e initial fixed, Steady text s e initial fixed := by
  obtain ⟨e, initial, fixed, hs⟩ := scheduled_of_parse accepted
  refine ⟨e, initial, fixed, hs, switchesOff_of_parse accepted, ?_⟩
  intro a starts courses es t w
  have hstart : Scene.Paced (Worker.ofSettings s).schedule.delay ⟨a.withCourses courses, []⟩ :=
    starts.paced courses
  rw [hs.worker] at hstart
  exact (hstart.behind es).countP_le hs.positive t w

/-- Clears from the start on, four milliseconds apart. -/
def brisk : Settings where
  env := "prod"
  logs := none
  eviction := some ⟨true, some .zero, some ⟨4000000, by decide⟩⟩
  metrics := none
  shutdown := none

/-- An application whose feed region cannot be cleared. -/
def stuck : App :=
  ⟨brisk, 0, .start 0 brisk.shutdownTimeout ⟨[.failing feedRegion 1 "gone"], [(feedRegion, 0)]⟩
    (.ofSettings brisk) []⟩

/-- The first clear takes a millisecond, and all of them fail. -/
def stuckLife : List Episode := [.step (.serve App.tracker), .step (.advance 8)]

/-- The clears start at 0, 5 and 9, so that two are within the four milliseconds from 5 on; there
could not be more. -/
theorem steady_stuck :
    parse brisk.json = .ok brisk ∧ App.Starts brisk stuck ∧
      let sweeps :=
        (Scene.behind ⟨stuck.withCourses [⟨false, 1, none⟩], []⟩ stuckLife).app.service.sweeps
      sweeps.map (·.start) = [0, 5, 9] ∧
        sweeps.countP (Sweep.isTickIn 5000000 4000000) = 2 ∧
        sweeps.countP (Sweep.isTickIn 5000000 4000000) ≤ 1 + 4000000 / 4000000 := by
  have accepted : parse brisk.json = .ok brisk := by
    rw [parse_json (by decide) (by rintro _ ⟨⟩)]
    rfl
  have starts : App.Starts brisk stuck :=
    .ofCache 0 ⟨[.failing feedRegion 1 "gone"], [(feedRegion, 0)]⟩ 0 rfl
  refine ⟨accepted, starts, by decide, by decide, ?_⟩
  obtain ⟨e, initial, fixed, law⟩ := steady accepted
  have hfixed : fixed.nanos = 4000000 := by
    have hworker := law.scheduled.worker
    exact (congrArg (fun w : Worker => w.schedule.delay.nanos) hworker).symm
  have hrate := law.rate stuck starts [⟨false, 1, none⟩] stuckLife 5000000 4000000
  rw [hfixed] at hrate
  exact hrate

end Settings

end CacheWarden
