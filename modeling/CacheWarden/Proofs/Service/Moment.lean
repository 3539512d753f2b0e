import CacheWarden.Proofs.Cache.Frame
import CacheWarden.Proofs.Service.Turn
import CacheWarden.Service.Step
/-!
Moments: the life of a service in its smallest parts.

A step lets the service settle behind it, and so may hold many turns.  A moment is
one turn, one move of the clock, or one thing that a caller does; between any two of
them anything else may happen.  The clock may go anywhere: whether it passes by a
task that is due is a matter of the clock, and is asked for where it counts.
-/

namespace CacheWarden

/-- What may happen at one moment. -/
inductive Moment where
  /-- The turn that is next is taken, if there is one. -/
  | turn
  /-- The clock goes on to a time. -/
  | pass (time : Nat)
  /-- The eviction loop is started on a tracker. -/
  | serve (tracker : TrackerId)
  /-- The feed region is cleared by a caller, through the evictor. -/
  | clear
  /-- A value is put, through a handle on the region. -/
  | put (region : RegionId) (key : Key) (value : Json.Value)
  | get (region : RegionId) (key : Key)
  /-- Every entry is removed, through a handle on the region. -/
  | clearAll (region : RegionId)
  | cancel
  | cancelAt (time : Nat)
  | interruptAt (time : Nat)
  /-- A task starts to wait for its end. -/
  | spawn (tracker : TrackerId) (wait : Wait)

/-- The loop is started. -/
def Moment.isServe : Moment → Bool
  | .serve _ => true
  | _ => false

theorem Moment.exists_of_isServe {m : Moment} (h : m.isServe = true) :
    ∃ tracker, m = .serve tracker := by
  unfold Moment.isServe at h
  split at h
  · exact ⟨_, rfl⟩
  · cases h

/-- The step is neither a start, which an application does in its own way, nor a closing. -/
def Step.isPlain : Step → Bool
  | .serve _ | .close _ | .awaitClosing _ _ => false
  | _ => true

namespace Service

/-- What a moment makes of a service, and what comes of it. -/
def meet (s : Service) : Moment → Service × Reply
  | .turn => (s.turn?.getD s, .done)
  | .pass time => ({ s with now := max s.now time }, .done)
  | .serve tracker =>
    let (s, started) := s.serve tracker
    (s, .started started)
  | .clear =>
    let (s, result) := s.clearCache false
    (s, .cleared result)
  | .put region key value => ({ s with cache := s.cache.put region key value }, .done)
  | .get region key => (s, .value ((s.cache.get? region key).map (·.value)))
  | .clearAll region =>
    let (cache, result) := s.cache.clearAll region
    ({ s with cache }, .cleared result)
  | .cancel => (s.cancel, .done)
  | .cancelAt time => (s.spawn ⟨none, .cancel, .until time⟩, .done)
  | .interruptAt time => (s.spawn ⟨none, .interrupt, .until time⟩, .done)
  | .spawn tracker wait => (s.spawn ⟨some tracker, .finish, wait⟩, .done)

/-- The service behind some moments. -/
def after (s : Service) (ms : List Moment) : Service := ms.foldl (fun s m => (s.meet m).1) s

@[simp] theorem after_nil (s : Service) : s.after [] = s := rfl

@[simp] theorem after_cons (s : Service) (m : Moment) (ms : List Moment) :
    s.after (m :: ms) = (s.meet m).1.after ms := rfl

theorem after_append (s : Service) (ms ns : List Moment) :
    s.after (ms ++ ns) = (s.after ms).after ns := by
  simp [after, List.foldl_append]

/-- Any state of a life lies between those in front of it and those behind. -/
theorem after_take_drop (s : Service) (ms : List Moment) (j : Nat) :
    (s.after (ms.take j)).after (ms.drop j) = s.after ms := by
  rw [← after_append, List.take_append_drop]

/-! ### The token -/

/-- No turn takes a cancellation back. -/
theorem Turn.cancelled {s s' : Service} (ht : Turn s s') (h : s.cancelled = true) :
    s'.cancelled = true := by
  cases ht with
  | @chore t other =>
    obtain ⟨tracker, job, wait⟩ := t
    cases job with
    | evict => cases other
    | finish | interrupt => exact h
    | cancel => rfl
  | @tick t due mem loop alive due_eq le =>
    -- the loop clears only while the token is not cancelled
    rw [alive] at h
    cases h
  | wake _ _ _ | gone _ _ _ | setOff _ => exact h

/-- No moment takes a cancellation back. -/
theorem cancelled_meet {s : Service} (h : s.cancelled = true) (m : Moment) :
    (s.meet m).1.cancelled = true := by
  cases m with
  | turn =>
    show (s.turn?.getD s).cancelled = true
    rcases ht : s.turn? with - | s'
    · exact h
    · exact (Turn.of_turn? ht).cancelled h
  | serve tracker =>
    obtain ⟨tasks, notices, hserve⟩ := s.serve_eq tracker
    show (s.serve tracker).1.cancelled = true
    rw [hserve]
    exact h
  | clear =>
    show (s.clearCache false).1.cancelled = true
    rw [clearCache_eq]
    show (s.cancelled || s.course.cancels) = true
    rw [h, Bool.true_or]
  | cancel => rfl
  | pass _ | put _ _ _ | get _ _ | clearAll _ | cancelAt _ | interruptAt _ | spawn _ _ => exact h

/-! ### The worker -/

/-- No turn changes the worker, nor whether it was started. -/
theorem Turn.evictor {s s' : Service} (ht : Turn s s') :
    s'.evictor.worker = s.evictor.worker ∧ s'.evictor.served = s.evictor.served := by
  cases ht with
  | chore other =>
    rw [perform_eq _ other]
    exact ⟨rfl, rfl⟩
  | @tick t due mem loop alive due_eq le =>
    obtain ⟨notices, htick⟩ := tick_eq (s.drop t) t
    rw [htick, clearCache_eq]
    exact ⟨Evictor.record_worker .., Evictor.record_served ..⟩
  | wake _ _ _ | gone _ _ _ | setOff _ => exact ⟨rfl, rfl⟩

/-- No moment changes the worker. -/
theorem worker_meet (s : Service) (m : Moment) :
    (s.meet m).1.evictor.worker = s.evictor.worker := by
  cases m with
  | turn =>
    show (s.turn?.getD s).evictor.worker = s.evictor.worker
    rcases ht : s.turn? with - | s'
    · rfl
    · exact (Turn.of_turn? ht).evictor.1
  | serve tracker =>
    obtain ⟨tasks, notices, hserve⟩ := s.serve_eq tracker
    show (s.serve tracker).1.evictor.worker = s.evictor.worker
    rw [hserve]
    exact Evictor.serve_worker s.evictor
  | clear =>
    show (s.clearCache false).1.evictor.worker = s.evictor.worker
    rw [clearCache_eq]
    exact Evictor.record_worker ..
  | pass _ | put _ _ _ | get _ _ | clearAll _ | cancel | cancelAt _ | interruptAt _ | spawn _ _ =>
    rfl

theorem worker_after (s : Service) (ms : List Moment) :
    (s.after ms).evictor.worker = s.evictor.worker := by
  induction ms generalizing s with
  | nil => rfl
  | cons m ms ih => exact (ih _).trans (worker_meet s m)

/-! ### Exact clocks -/

/-- The moment leaves the loop to its schedule: no caller clears, and the clock moves only where
there is no turn to take, and not past a task that is due. -/
def spares (s : Service) : Moment → Bool
  | .clear => false
  | .pass time => s.turn?.isNone && s.nextDue?.all (time ≤ ·)
  | _ => true

/-- Every moment of a life leaves the loop to its schedule. -/
def punctual : Service → List Moment → Bool
  | _, [] => true
  | s, m :: ms => s.spares m && punctual (s.meet m).1 ms

theorem punctual_append (s : Service) (ms ns : List Moment) :
    s.punctual (ms ++ ns) = (s.punctual ms && (s.after ms).punctual ns) := by
  induction ms generalizing s with
  | nil => rfl
  | cons m ms ih => simp [punctual, ih, Bool.and_assoc]

/-- A turn or a jump of the clock is a moment of an exact clock. -/
theorem next?_eq_meet {s s' : Service} {limit : Nat} (h : s.next? limit = some s') :
    ∃ m, m.isServe = false ∧ s.spares m = true ∧ s' = (s.meet m).1 := by
  unfold next? at h
  rcases ht : s.turn? with - | u
  · rw [ht] at h
    dsimp only at h
    rcases hd : s.nextDue? with - | due
    · rw [hd] at h
      cases h
    · rw [hd] at h
      dsimp only at h
      split at h
      · obtain rfl := Option.some.inj h
        refine ⟨.pass due, rfl, by simp [spares, ht, hd], ?_⟩
        -- the jump leads on, since nothing was due
        have hlate : s.now < due := by
          obtain ⟨⟨first, t⟩, he, rfl⟩ := Option.map_eq_some_iff.mp hd
          obtain ⟨hmem, hdue, -⟩ := Task.earliest?_eq_some he
          exact (turn?_eq_none ht).2 t hmem first hdue
        show _ = { s with now := max s.now due }
        rw [Nat.max_eq_right (Nat.le_of_lt hlate)]
      · cases h
  · rw [ht] at h
    exact ⟨.turn, rfl, rfl, by simp [meet, ht, Option.some.inj h]⟩

/-- Every run is a life with an exact clock, in which nothing is started. -/
theorem run_eq_after (limit steps : Nat) (s : Service) :
    ∃ ms, s.run limit steps = s.after ms ∧ s.punctual ms = true ∧
      ∀ m ∈ ms, m.isServe = false := by
  induction steps generalizing s with
  | zero => exact ⟨[], rfl, rfl, nofun⟩
  | succ n ih =>
    rcases hn : s.next? limit with - | s'
    · exact ⟨[], by simp [run, hn], rfl, nofun⟩
    · obtain ⟨m, hserve, hm, rfl⟩ := next?_eq_meet hn
      obtain ⟨ms, hms, hp, hall⟩ := ih (s.meet m).1
      refine ⟨m :: ms, ?_, ?_, ?_⟩
      · rw [run, hn]
        exact hms
      · simp [punctual, hm, hp]
      · simpa [hserve] using hall

/-! ### Steps -/

/-- To put values one after another takes a moment for each. -/
theorem after_puts (s : Service) (region : RegionId) (entries : List (Key × Json.Value)) :
    s.after (entries.map fun e => .put region e.1 e.2)
      = { s with cache := s.cache.fill region entries } := by
  induction entries generalizing s with
  | nil => simp
  | cons e entries ih =>
    rw [List.map_cons, after_cons, ih, Cache.fill_cons]
    rfl

/-- A step is made of moments. -/
theorem act_eq_after (s : Service) {x : Step} (plain : x.isPlain = true) :
    ∃ ms, (s.act x).1 = s.after ms ∧ ∀ m ∈ ms, m.isServe = false := by
  cases x with
  | serve _ | close _ | awaitClosing _ _ => cases plain
  | advance ms =>
    obtain ⟨own, hrun, -, hserve⟩ := run_eq_after (s.now + ms) (s.stepBound (s.now + ms)) s
    -- the clock goes on to the end of the while, also if nothing is due then
    refine ⟨own ++ [.pass (s.now + ms)], ?_, ?_⟩
    · rw [after_append, ← hrun]
      rfl
    · simpa [or_imp, forall_and, Moment.isServe] using hserve
  | fill region entries =>
    refine ⟨_, (after_puts s region entries).symm, ?_⟩
    intro m hm
    obtain ⟨e, -, rfl⟩ := List.mem_map.mp hm
    rfl
  | get region key => exact ⟨[], rfl, nofun⟩
  | clear => exact ⟨[.clear], rfl, by simp [Moment.isServe]⟩
  | cancel => exact ⟨[.cancel], rfl, by simp [Moment.isServe]⟩
  | cancelAfter ms => exact ⟨[.cancelAt (s.now + ms)], rfl, by simp [Moment.isServe]⟩
  | spawn tracker ms =>
    exact ⟨[.spawn tracker (.until (s.now + ms))], rfl, by simp [Moment.isServe]⟩
  | spawnPatient tracker rest =>
    exact ⟨[.spawn tracker (.cancellation rest)], rfl, by simp [Moment.isServe]⟩
  | interruptAfter ms => exact ⟨[.interruptAt (s.now + ms)], rfl, by simp [Moment.isServe]⟩

end Service

end CacheWarden
