import CacheWarden.Proofs.App.Life
import CacheWarden.Proofs.Service.Account
/-!
Calls that start the loop, in parts.

A call comes to the flag, where it is the first or not; if it is, it puts the loop on
its tracker; and a call of the application tells what came of it (`App.proceed`).
Between any two parts of a call there may be parts of other calls, and anything else
may happen: a scene is an application with all its calls, and a history of it is a
list of happenings, in any order.  What else a call reads never changes, so that it
does not matter when it does; one whose parts follow one another is a start as it is
said elsewhere (`after_alone`).

A part does little (`Part`), and what happens beside the calls does nothing to them
(`Aside`).
-/

namespace CacheWarden

/-- How a call asks for the loop. -/
inductive Way where
  /-- From the evictor, for a tracker. -/
  | evictor (tracker : TrackerId)
  /-- From the application. -/
  | application
deriving DecidableEq, Repr

namespace Way

/-- The tracker that the call puts the loop on. -/
def tracker : Way → TrackerId
  | .evictor tracker => tracker
  | .application => App.tracker

/-- The loop as the call puts it there. -/
def loop (w : Way) : Task := ⟨some w.tracker, .evict, .turn⟩

end Way

/-- How far a call has come. -/
inductive Stage where
  /-- It has not come to the flag. -/
  | called
  /-- It was the first to come to the flag, and has yet to put the loop on its tracker. -/
  | won
  /-- The evictor has answered it, with a handle or with none. -/
  | answered (handle : Bool)
  /-- It is over. -/
  | ended (handle : Bool)
deriving DecidableEq, Repr

namespace Stage

/-- The call was given a handle. -/
def hasHandle : Stage → Bool
  | .called | .won => false
  | .answered handle | .ended handle => handle

/-- The call was given a handle, or is going to be. -/
def wins (s : Stage) : Bool := s == .won || s.hasHandle

/-- The number of parts that the call has at most before it. -/
def left : Stage → Nat
  | .called => 3
  | .won => 2
  | .answered _ => 1
  | .ended _ => 0

end Stage

/-- A call. -/
structure Starter where
  way : Way
  stage : Stage
deriving DecidableEq, Repr

namespace Starter

/-- The tasks that the call has put on its tracker. -/
def tasks (s : Starter) : List Task := if s.stage.hasHandle then [s.way.loop] else []

/-- The call is one of the application, and over. -/
def isReported (s : Starter) : Bool := s.way == .application && s.stage.left == 0

/-- So it is, and there is no handle. -/
def isRefused (s : Starter) : Bool := s.isReported && !s.stage.hasHandle

end Starter

/-- What may happen. -/
inductive Happening where
  /-- A call begins. -/
  | call (way : Way)
  /-- A call, by its number, does its next part. -/
  | go (i : Nat)
  /-- Anything happens that is not a start. -/
  | moment (m : Moment) (other : m.isServe = false)
  /-- The token is cancelled, and a tracker closed. -/
  | shut (tracker : TrackerId)

/-- A call does its next part. -/
def Happening.isGo (i : Nat) : Happening → Bool
  | .go j => i == j
  | _ => false

/-- The next part of a call. -/
def App.proceed (a : App) (way : Way) : Stage → App × Stage
  | .called =>
    let (evictor, won, ns) := a.service.evictor.serve
    let service := { a.service with evictor }.tell ns
    ({ a with service }, if won then .won else .answered false)
  | .won => ({ a with service := a.service.spawn way.loop }, .answered true)
  | .answered handle =>
    match way with
    | .evictor _ => (a, .ended handle)
    | .application =>
      let refused := !handle && a.settings.isEvictionEnabled
      let ns := if refused then [.notStarted Evictor.name] else []
      (a.tell (ns ++ [.started a.service.cache.names]), .ended handle)
  | .ended handle => (a, .ended handle)

/-- An application and the calls that start its loop, in the order in which they began. -/
structure Scene where
  app : App
  starters : List Starter

namespace Scene

/-- What a happening makes of a scene. -/
def step (c : Scene) : Happening → Scene
  | .call way => { c with starters := c.starters ++ [⟨way, .called⟩] }
  | .go i =>
    match c.starters[i]? with
    | none => c
    | some s =>
      let (app, stage) := c.app.proceed s.way s.stage
      ⟨app, c.starters.set i ⟨s.way, stage⟩⟩
  | .moment m _ => { c with app := (c.app.meet m).1 }
  | .shut tracker =>
    let service := { c.app.service.cancel with closed := tracker :: c.app.service.closed }
    { c with app := { c.app with service } }

/-- The scene behind some happenings. -/
def after (c : Scene) (hs : List Happening) : Scene := hs.foldl step c

@[simp] theorem after_nil (c : Scene) : c.after [] = c := rfl

@[simp] theorem after_cons (c : Scene) (h : Happening) (hs : List Happening) :
    c.after (h :: hs) = (c.step h).after hs := rfl

theorem after_append (c : Scene) (hs more : List Happening) :
    c.after (hs ++ more) = (c.after hs).after more := by
  simp [after, List.foldl_append]

end Scene

/-! ### A call by itself -/

namespace App

/-- What a call makes of the application that nothing comes between; and if it is given a handle. -/
def callAlone (a : App) : Way → App × Bool
  | .evictor tracker =>
    let (service, started) := a.service.serve tracker
    ({ a with service }, started)
  | .application => (a.serve, (a.service.serve tracker).2)

/-- A call of the application that is refused tells so where eviction is on. -/
theorem proceed_refused (a : App) :
    a.proceed .application (.answered false) =
      let told := if a.settings.isEvictionEnabled then a.tell [.notStarted Evictor.name] else a
      (told.tell [.started told.service.cache.names], .ended false) := by
  unfold proceed
  rcases h : a.settings.isEvictionEnabled with - | -
  · simp
  · simp [tell, Service.tell_tell]
    rfl

/-- The parts of a call, one after another, are the call: behind three of them, it is over. -/
theorem proceed_thrice (a : App) (way : Way) :
    let first := a.proceed way .called
    let second := first.1.proceed way first.2
    second.1.proceed way second.2 = ((a.callAlone way).1, .ended (a.callAlone way).2) := by
  intro first second
  rcases hserve : a.service.evictor.serve with ⟨e, won, ns⟩
  have hfirst : first = ({ a with service := { a.service with evictor := e }.tell ns },
      if won then .won else .answered false) := by
    simp only [first, proceed, hserve]
  unfold callAlone App.serve Service.serve
  simp only [second, hserve, hfirst]
  cases way with
  | evictor tracker => rcases won with - | - <;> rfl
  | application =>
    rcases won with - | -
    · -- the third part of a call that is refused does nothing
      exact congrArg (fun r => App.proceed r.1 .application r.2) (proceed_refused _)
    · rfl

end App

namespace Scene

/-- A call does its next part. -/
theorem step_go (c : Scene) {i : Nat} {s : Starter} (h : c.starters[i]? = some s) :
    c.step (.go i) = ⟨(c.app.proceed s.way s.stage).1,
      c.starters.set i ⟨s.way, (c.app.proceed s.way s.stage).2⟩⟩ := by
  simp [step, h]

/-- The call that began last does its next part. -/
theorem step_go_last (a : App) (ss : List Starter) (way : Way) (stage : Stage) :
    step ⟨a, ss ++ [⟨way, stage⟩]⟩ (.go ss.length)
      = ⟨(a.proceed way stage).1, ss ++ [⟨way, (a.proceed way stage).2⟩]⟩ := by
  have hlast : (ss ++ [⟨way, stage⟩])[ss.length]? = some (⟨way, stage⟩ : Starter) := by simp
  rw [step_go _ hlast]
  simp

/-- A call that nothing comes between. -/
theorem after_alone (c : Scene) (way : Way) :
    let own := Happening.go c.starters.length
    c.after [.call way, own, own, own]
      = ⟨(c.app.callAlone way).1, c.starters ++ [⟨way, .ended (c.app.callAlone way).2⟩]⟩ := by
  intro own
  have hparts := c.app.proceed_thrice way
  show step (step (step ⟨c.app, c.starters ++ [⟨way, .called⟩]⟩ own) own) own = _
  rw [step_go_last, step_go_last, step_go_last]
  dsimp only at hparts
  rw [hparts]

end Scene

/-! ### What a part does -/

namespace Notice

/-- That a call was refused is not a line of a clear or of the loop. -/
theorem count_notStarted {ns : List Notice}
    (h : ∀ n ∈ ns, n.isOfLoop = true ∨ n.isOfClear = true) :
    ns.count (.notStarted Evictor.name) = 0 := by
  rw [List.count_eq_zero]
  intro hmem
  rcases h _ hmem with hloop | hclear
  · cases hloop
  · have : Notice.isOfClear (.notStarted Evictor.name) = false := rfl
    rw [this] at hclear
    cases hclear

end Notice

/-- How many calls the application told of as refused. -/
def App.refusals (a : App) : Nat := a.service.notices.count (.notStarted Evictor.name)

theorem App.refusals_tell (a : App) (ns : List Notice) :
    (a.tell ns).refusals = a.refusals + ns.count (.notStarted Evictor.name) :=
  List.count_append

/-- What the next part of a call does: the first to come to the flag of an evictor that is switched
on sets it, and any other is refused; the one that was first puts the loop on its tracker; and the
application tells of a call that was refused where its settings have eviction on. -/
inductive Part (a : App) (way : Way) : Stage → App → Stage → Prop
  | win (enabled : a.service.evictor.worker.enabled = true)
      (first : a.service.evictor.served = false) :
      Part a way .called
        { a with service :=
          { a.service with evictor := { a.service.evictor with served := true } } }
        .won
  | lose (late : a.service.evictor.worker.enabled = true → a.service.evictor.served = true)
      (ns : List Notice) (quiet : ns.count (.notStarted Evictor.name) = 0) :
      Part a way .called (a.tell ns) (.answered false)
  | start : Part a way .won { a with service := a.service.spawn way.loop } (.answered true)
  | report (handle : Bool) (ns : List Notice)
      (told : ns.count (.notStarted Evictor.name) =
        if a.settings.isEvictionEnabled && (⟨way, .ended handle⟩ : Starter).isRefused
          then 1 else 0) :
      Part a way (.answered handle) (a.tell ns) (.ended handle)
  | rest (handle : Bool) : Part a way (.ended handle) a (.ended handle)

theorem App.part_proceed (a : App) (way : Way) (stage : Stage) :
    Part a way stage (a.proceed way stage).1 (a.proceed way stage).2 := by
  cases stage with
  | called =>
    unfold proceed
    rcases he : a.service.evictor.worker.enabled with - | -
    · have hserve : a.service.evictor.serve = (a.service.evictor, false,
          [.workerDisabled Evictor.name Evictor.region]) := by
        simp [Evictor.serve, he]
      rw [hserve]
      refine .lose (fun h => ?_) _ rfl
      rw [he] at h
      cases h
    · rcases hs : a.service.evictor.served with - | -
      · rw [Evictor.serve_first he hs]
        have hquiet (s : Service) : s.tell [] = s := by simp [Service.tell]
        dsimp only
        rw [hquiet]
        exact .win he hs
      · have hserve : a.service.evictor.serve = (a.service.evictor, false,
            [.workerServing Evictor.name]) := by
          simp [Evictor.serve, he, hs]
        rw [hserve]
        exact .lose (fun _ => hs) _ rfl
  | won => exact .start
  | answered handle =>
    cases way with
    | evictor tracker =>
      have hnone : a.tell [] = a := by simp [tell, Service.tell]
      have hreport : Part a (.evictor tracker) (.answered handle) (a.tell []) (.ended handle) :=
        .report handle [] (by simp [Starter.isRefused, Starter.isReported])
      rw [hnone] at hreport
      exact hreport
    | application =>
      refine .report handle _ ?_
      rw [List.count_append]
      rcases handle with - | - <;> rcases a.settings.isEvictionEnabled with - | - <;> rfl
  | ended handle => exact .rest handle

/-! ### What happens beside the calls -/

/-- Nothing changed that the calls have to do with, but that the loop may end. -/
structure Aside (a a' : App) : Prop where
  settings : a'.settings = a.settings
  worker : a'.service.evictor.worker = a.service.evictor.worker
  served : a'.service.evictor.served = a.service.evictor.served
  loops : a'.service.loops.length ≤ a.service.loops.length
  refusals : a'.refusals = a.refusals

namespace Service

/-- All that a moment tells is of a clear or of the loop. -/
theorem told_meet (s : Service) (m : Moment) :
    ∃ ns, (s.meet m).1.notices = s.notices ++ ns ∧
      ∀ n ∈ ns, n.isOfLoop = true ∨ n.isOfClear = true := by
  cases s.recorded_meet m with
  | kept epoch counters meter sweeps notices =>
    obtain ⟨ns, htold, hloop⟩ := notices
    exact ⟨ns, htold, fun n hn => .inl (hloop n hn)⟩
  | cleared w epoch sweeps result counters meter notices =>
    exact ⟨_, notices, fun n hn => .inr (isOfClear_of_record _ _ _ _ n hn)⟩

/-- Only a start sets the flag. -/
theorem served_meet (s : Service) {m : Moment} (h : m.isServe = false) :
    (s.meet m).1.evictor.served = s.evictor.served := by
  cases m with
  | serve _ => cases h
  | turn =>
    show (s.turn?.getD s).evictor.served = _
    rcases ht : s.turn? with - | s'
    · rfl
    · exact (Turn.of_turn? ht).evictor.2
  | clear =>
    show (s.clearCache false).1.evictor.served = _
    rw [clearCache_eq]
    exact Evictor.record_served ..
  | pass _ | put _ _ _ | get _ _ | clearAll _ | cancel | cancelAt _ | interruptAt _ | spawn _ _ =>
    rfl

end Service

theorem App.aside_meet (a : App) {m : Moment} (other : m.isServe = false) :
    Aside a (a.meet m).1 := by
  rw [meet_eq a other]
  obtain ⟨ns, htold, hns⟩ := a.service.told_meet m
  refine ⟨rfl, a.service.worker_meet m, a.service.served_meet other,
    a.service.length_loops_meet_le other, ?_⟩
  show (a.service.meet m).1.notices.count _ = a.refusals
  rw [htold, List.count_append, Notice.count_notStarted hns]
  rfl

/-! ### What a happening does -/

/-- Nothing happens to the calls. -/
def Happening.isAside : Happening → Bool
  | .call _ | .go _ => false
  | .moment _ _ | .shut _ => true

theorem Happening.isGo_of_isAside {h : Happening} (i : Nat) (other : h.isAside = true) :
    h.isGo i = false := by
  cases h with
  | call _ | go _ => cases other
  | moment _ _ | shut _ => rfl

/-- What a happening may do: a call begins, or does its next part; or something else happens. -/
inductive Onward (c : Scene) : Happening → Scene → Prop
  | call (way : Way) : Onward c (.call way) ⟨c.app, c.starters ++ [⟨way, .called⟩]⟩
  | part (i : Nat) (s : Starter) (present : c.starters[i]? = some s) (a : App) (stage : Stage)
      (part : Part c.app s.way s.stage a stage) :
      Onward c (.go i) ⟨a, c.starters.set i ⟨s.way, stage⟩⟩
  | absent (i : Nat) (none : c.starters.length ≤ i) : Onward c (.go i) c
  | aside (h : Happening) (other : h.isAside = true) (a : App) (aside : Aside c.app a) :
      Onward c h ⟨a, c.starters⟩

theorem Scene.onward (c : Scene) (h : Happening) : Onward c h (c.step h) := by
  cases h with
  | call way => exact .call way
  | go i =>
    rcases hi : c.starters[i]? with - | s
    · have hstep : c.step (.go i) = c := by simp [step, hi]
      rw [hstep]
      exact .absent i (List.getElem?_eq_none_iff.mp hi)
    · rw [step_go c hi]
      exact .part i s hi _ _ (c.app.part_proceed s.way s.stage)
  | moment m other => exact .aside _ rfl _ (c.app.aside_meet other)
  | shut tracker => exact .aside _ rfl _ ⟨rfl, rfl, rfl, Nat.le_refl _, rfl⟩

end CacheWarden
