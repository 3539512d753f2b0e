import CacheWarden.App
import CacheWarden.Proofs.Service.Deed
/-!
The life of an application, in moments.

An application starts its loop in a way of its own, on its own tracker; all else that
happens to it happens to its service (`after_eq`).  A step is made of moments
(`step_eq_after`), so what holds at all moments holds between all steps.
-/

namespace CacheWarden.App

/-- What a moment makes of an application, and what comes of it. -/
def meet (a : App) : Moment → App × Reply
  | .serve _ => (a.serve, .done)
  | m =>
    let (service, r) := a.service.meet m
    ({ a with service }, r)

/-- The application behind some moments. -/
def after (a : App) (ms : List Moment) : App := ms.foldl (fun a m => (a.meet m).1) a

@[simp] theorem after_nil (a : App) : a.after [] = a := rfl

@[simp] theorem after_cons (a : App) (m : Moment) (ms : List Moment) :
    a.after (m :: ms) = (a.meet m).1.after ms := rfl

theorem after_append (a : App) (ms ns : List Moment) :
    a.after (ms ++ ns) = (a.after ms).after ns := by
  simp [after, List.foldl_append]

/-! ### Moments of the service -/

/-- A start of the application is a start of its service, of which more is told. -/
theorem serve_eq (a : App) :
    ∃ ns, a.serve = { a with service := (a.service.serve tracker).1.tell ns } := by
  unfold serve
  rcases a.service.serve tracker with ⟨s, started⟩
  dsimp only
  split
  · exact ⟨_, by rw [tell, tell, Service.tell_tell]⟩
  · exact ⟨_, rfl⟩

/-- Any other moment is one of the service. -/
theorem meet_eq (a : App) {m : Moment} (h : m.isServe = false) :
    (a.meet m).1 = { a with service := (a.service.meet m).1 } := by
  cases m with
  | serve _ => cases h
  | turn | pass _ | clear | put _ _ _ | get _ _ | clearAll _ | cancel | cancelAt _ | interruptAt _
  | spawn _ _ => rfl

/-- Where nothing is started, a life is one of the service. -/
theorem after_eq (a : App) {ms : List Moment} (h : ∀ m ∈ ms, m.isServe = false) :
    a.after ms = { a with service := a.service.after ms } := by
  induction ms generalizing a with
  | nil => rfl
  | cons m ms ih =>
    rw [after_cons, meet_eq a (h m List.mem_cons_self),
      ih _ fun n hn => h n (List.mem_cons_of_mem m hn)]
    rfl

/-- No moment gives the application another region. -/
theorem feed_meet (a : App) (m : Moment) : (a.meet m).1.feed = a.feed := by
  rcases h : m.isServe with - | -
  · rw [meet_eq a h]
  · obtain ⟨t, rfl⟩ := Moment.exists_of_isServe h
    obtain ⟨ns, hserve⟩ := a.serve_eq
    show a.serve.feed = a.feed
    rw [hserve]

theorem feed_after (a : App) (ms : List Moment) : (a.after ms).feed = a.feed := by
  induction ms generalizing a with
  | nil => rfl
  | cons m ms ih => exact (ih _).trans (feed_meet a m)

/-- A moment does to the application what it may do to its service. -/
theorem deed_meet (a : App) (m : Moment) : Service.Deed a.service m (a.meet m).1.service := by
  rcases h : m.isServe with - | -
  · rw [meet_eq a h]
    exact a.service.deed_meet m
  · obtain ⟨t, rfl⟩ := Moment.exists_of_isServe h
    obtain ⟨ns, hserve⟩ := a.serve_eq
    obtain ⟨tasks, notices, hstart⟩ := a.service.serve_eq tracker
    show Service.Deed a.service _ a.serve.service
    rw [hserve, hstart]
    exact .own nofun rfl (Evictor.serve_counters a.service.evictor) rfl rfl

/-- A loop that is switched off is never started. -/
theorem dormant_meet {a : App} (h : a.service.Dormant) (m : Moment) :
    (a.meet m).1.service.Dormant := by
  rcases e : m.isServe with - | -
  · rw [meet_eq a e]
    exact h.meet m
  · obtain ⟨t, rfl⟩ := Moment.exists_of_isServe e
    obtain ⟨ns, hserve⟩ := a.serve_eq
    show a.serve.service.Dormant
    rw [hserve]
    exact (h.meet (.serve tracker)).tell ns

/-! ### Clears -/

/-- The evictor clears in the course of some moments, by its loop or for a caller. -/
def Evicts (a : App) (ms : List Moment) : Prop :=
  (a.after ms).service.sweeps ≠ a.service.sweeps

/-- The feed region is cleared in the course of some moments, by the evictor or through a handle. -/
def Clears (a : App) (ms : List Moment) : Prop := a.Evicts ms ∨ .clearAll a.feed ∈ ms

/-- A value is put under a key of the feed region in the course of some moments. -/
def Puts (a : App) (key : Key) (ms : List Moment) : Prop := ∃ value, .put a.feed key value ∈ ms

/-- No moment takes a clear back. -/
theorem sweeps_meet (a : App) (m : Moment) :
    ∃ more, (a.meet m).1.service.sweeps = a.service.sweeps ++ more := by
  cases a.deed_meet m with
  | own other cache counters courses sweeps => exact ⟨[], by simp [sweeps]⟩
  | evict cause cache evicted courses sweeps =>
    obtain ⟨w, -, hw⟩ := sweeps
    exact ⟨[w], hw⟩

theorem sweeps_after (a : App) (ms : List Moment) :
    ∃ more, (a.after ms).service.sweeps = a.service.sweeps ++ more := by
  induction ms generalizing a with
  | nil => exact ⟨[], (List.append_nil _).symm⟩
  | cons m ms ih =>
    obtain ⟨first, hfirst⟩ := a.sweeps_meet m
    obtain ⟨others, hothers⟩ := ih (a.meet m).1
    refine ⟨first ++ others, ?_⟩
    rw [after_cons, hothers, hfirst, List.append_assoc]

theorem not_evicts_nil (a : App) : ¬ a.Evicts [] := fun h => h rfl

theorem not_clears_nil (a : App) : ¬ a.Clears [] := by
  rintro (h | h)
  · exact a.not_evicts_nil h
  · cases h

/-- The evictor clears in the course of some moments if there are more clears in the end. -/
theorem evicts_iff (a : App) (ms : List Moment) {more : List Sweep}
    (h : (a.after ms).service.sweeps = a.service.sweeps ++ more) : a.Evicts ms ↔ more ≠ [] := by
  unfold Evicts
  rw [h, ne_eq, List.append_right_eq_self]

/-- The evictor clears at the first moment or behind it. -/
theorem evicts_cons (a : App) (m : Moment) (ms : List Moment) :
    a.Evicts (m :: ms) ↔ a.Evicts [m] ∨ (a.meet m).1.Evicts ms := by
  obtain ⟨first, hfirst⟩ := a.sweeps_meet m
  obtain ⟨others, hothers⟩ := (a.meet m).1.sweeps_after ms
  have hall : (a.after (m :: ms)).service.sweeps = a.service.sweeps ++ (first ++ others) := by
    rw [after_cons, hothers, hfirst, List.append_assoc]
  rw [evicts_iff a _ hall, evicts_iff a [m] hfirst, evicts_iff _ ms hothers, ne_eq,
    List.append_eq_nil_iff]
  exact Classical.not_and_iff_not_or_not

theorem clears_cons (a : App) (m : Moment) (ms : List Moment) :
    a.Clears (m :: ms) ↔ a.Clears [m] ∨ (a.meet m).1.Clears ms := by
  unfold Clears
  rw [evicts_cons, feed_meet, List.mem_cons, List.mem_singleton]
  exact or_or_or_comm

/-- A clear that a caller asks for is always done. -/
theorem evicts_clear (a : App) : a.Evicts [.clear] := by
  cases a.deed_meet .clear with
  | own other cache counters courses sweeps => exact absurd rfl other
  | evict cause cache evicted courses sweeps =>
    obtain ⟨w, -, hw⟩ := sweeps
    exact (evicts_iff a [.clear] hw).mpr (List.cons_ne_nil w [])

/-- A tick of the loop is always done. -/
theorem evicts_tick (a : App) {t : Task}
    (ticks : a.service.turn? = some ((a.service.drop t).tick t)) : a.Evicts [.turn] := by
  have hmeet : (a.after [.turn]).service = (a.service.drop t).tick t := by
    show a.service.turn?.getD a.service = _
    rw [ticks]
    rfl
  obtain ⟨w, hw⟩ : ∃ w, ((a.service.drop t).tick t).sweeps = a.service.sweeps ++ [w] := by
    obtain ⟨notices, htick⟩ := (a.service.drop t).tick_eq t
    rw [htick, Service.clearCache_eq]
    exact ⟨_, rfl⟩
  rw [← hmeet] at hw
  exact (evicts_iff a [.turn] hw).mpr (List.cons_ne_nil w [])

/-! ### Steps -/

/-- A step is made of moments. -/
theorem step_eq_after (a : App) {x : Step} (h : x.isPlain = true ∨ ∃ tracker, x = .serve tracker) :
    ∃ ms, (a.step x).1 = a.after ms := by
  obtain ⟨acted, hact⟩ : ∃ ms, (a.act x).1 = a.after ms := by
    rcases h with hplain | ⟨tracker, rfl⟩
    · obtain ⟨ms, hms, hserve⟩ := a.service.act_eq_after hplain
      refine ⟨ms, ?_⟩
      rw [after_eq a hserve, ← hms]
      cases x with
      | serve _ | close _ | awaitClosing _ _ => cases hplain
      | advance _ | fill _ _ | get _ _ | clear | cancel | cancelAfter _ | spawn _ _
      | spawnPatient _ _ | interruptAfter _ => rfl
    · exact ⟨[.serve tracker], rfl⟩
  obtain ⟨settled, hsettle, -, hserve⟩ :=
    Service.run_eq_after (a.act x).1.service.now
      ((a.act x).1.service.stepBound (a.act x).1.service.now) (a.act x).1.service
  refine ⟨acted ++ settled, ?_⟩
  rw [after_append, ← hact, after_eq _ hserve, ← hsettle]
  rfl

end CacheWarden.App
