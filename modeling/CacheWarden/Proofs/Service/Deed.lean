import CacheWarden.Proofs.Cache.Frame
import CacheWarden.Proofs.Service.Loop
/-!
What a moment does to the regions, and to what the evictor counts.

Either the callers work on the regions, each on the region of its handle, and the
evictor counts nothing; or the evictor clears, and counts what it removed (`Deed`).
The evictor clears only when a caller asks for it or when there is a loop, and there
is never one where the loop is switched off (`Dormant.meet`).
-/

namespace CacheWarden

/-! ### The callers' own work -/

namespace Moment

/-- What callers make of a region at a moment. -/
def onRegion (id : RegionId) : Moment → Region → Region
  | .put i key value, r => if i = id then r.put key value else r
  | .clearAll i, r => if i = id then r.clearAll.1 else r
  | _, r => r

/-- What callers make of all regions at a moment. -/
def onCache : Moment → Cache → Cache
  | .put i key value, c => c.put i key value
  | .clearAll i, c => (c.clearAll i).1
  | _, c => c

/-- Each region is changed by the work on it. -/
theorem region?_onCache (m : Moment) (c : Cache) (id : RegionId) :
    (m.onCache c).region? id = (c.region? id).map (m.onRegion id) := by
  cases m with
  | put i key value =>
    show (c.put i key value).region? id = (c.region? id).map fun r => if i = id then _ else r
    by_cases h : id = i
    · subst h
      simp [Cache.region?_put_self]
    · simp [Cache.region?_put_of_ne c h, Ne.symm h]
  | clearAll i =>
    show (c.clearAll i).1.region? id = (c.region? id).map fun r => if i = id then _ else r
    by_cases h : id = i
    · subst h
      simp [Cache.region?_clearAll_self]
    · simp [Cache.region?_clearAll_of_ne c h, Ne.symm h]
  | turn | pass _ | serve _ | clear | get _ _ | cancel | cancelAt _ | interruptAt _ | spawn _ _ =>
    exact (congrFun Option.map_id (c.region? id)).symm

theorem registry_onCache (m : Moment) (c : Cache) : (m.onCache c).registry = c.registry := by
  cases m with
  | clearAll i => exact Cache.registry_clearAll c i
  | put _ _ _ | turn | pass _ | serve _ | clear | get _ _ | cancel | cancelAt _ | interruptAt _
  | spawn _ _ => rfl

end Moment

namespace Service

/-! ### Deeds -/

/-- What a moment may do to the regions and to what the evictor counts. -/
inductive Deed (s : Service) (m : Moment) (s' : Service) : Prop
  /-- The regions are what callers make of them. -/
  | own (other : m ≠ .clear) (cache : s'.cache = m.onCache s.cache)
      (counters : s'.evictor.counters = s.evictor.counters) (courses : s'.courses = s.courses)
      (sweeps : s'.sweeps = s.sweeps)
  /-- The evictor clears. -/
  | evict (cause : m = .clear ∨ m = .turn ∧ s.loops ≠ []) (cache : s'.cache = s.swept.1)
      (evicted : s'.evictor.counters.evictedItems
        = s.evictor.counters.evictedItems + .ofNat (Evictor.removed s.swept.2))
      (courses : s'.courses = s.courses.tail)
      (sweeps : ∃ w : Sweep, w.result = s.swept.2 ∧ s'.sweeps = s.sweeps ++ [w])

variable {s s' : Service} {m : Moment}

theorem Turn.deed (ht : Turn s s') : Deed s .turn s' := by
  have hother : Moment.turn ≠ .clear := nofun
  cases ht with
  | chore other =>
    rw [perform_eq _ other]
    exact .own hother rfl rfl rfl rfl
  | @tick t due mem loop alive due_eq le =>
    have hcause : s.loops ≠ [] := List.ne_nil_of_mem (List.mem_filter.mpr ⟨mem, loop⟩)
    obtain ⟨notices, htick⟩ := tick_eq (s.drop t) t
    rw [htick, clearCache_eq]
    exact .evict (.inr ⟨rfl, hcause⟩) rfl (Evictor.record_evictedItems ..) rfl ⟨_, rfl, rfl⟩
  | wake _ _ _ | gone _ _ _ | setOff _ => exact .own hother rfl rfl rfl rfl

/-- Every moment does one or the other. -/
theorem deed_meet (s : Service) (m : Moment) : Deed s m (s.meet m).1 := by
  cases m with
  | turn =>
    show Deed s .turn (s.turn?.getD s)
    rcases ht : s.turn? with - | s'
    · exact .own nofun rfl rfl rfl rfl
    · exact (Turn.of_turn? ht).deed
  | serve tracker =>
    obtain ⟨tasks, notices, hserve⟩ := s.serve_eq tracker
    show Deed s _ (s.serve tracker).1
    rw [hserve]
    exact .own nofun rfl (Evictor.serve_counters s.evictor) rfl rfl
  | clear =>
    show Deed s .clear (s.clearCache false).1
    rw [clearCache_eq]
    exact .evict (.inl rfl) rfl (Evictor.record_evictedItems ..) rfl ⟨_, rfl, rfl⟩
  | pass _ | put _ _ _ | get _ _ | clearAll _ | cancel | cancelAt _ | interruptAt _ | spawn _ _ =>
    exact .own nofun rfl rfl rfl rfl

/-! ### A loop that is switched off -/

/-- The loop is switched off, and there is none. -/
structure Dormant (s : Service) : Prop where
  disabled : s.evictor.worker.enabled = false
  idle : s.loops = []

theorem Dormant.tell (h : Dormant s) (ns : List Notice) : Dormant (s.tell ns) :=
  ⟨h.disabled, h.idle⟩

/-- A loop that is switched off is never started. -/
theorem Dormant.meet (h : Dormant s) (m : Moment) : Dormant (s.meet m).1 := by
  refine ⟨by rw [worker_meet, h.disabled], ?_⟩
  cases m with
  | turn =>
    show (s.turn?.getD s).loops = []
    rcases ht : s.turn? with - | s'
    · exact h.idle
    · exact (Turn.of_turn? ht).idle h.idle
  | serve tracker =>
    show (s.serve tracker).1.loops = []
    obtain ⟨ns, hserve⟩ := Evictor.serve_disabled h.disabled
    unfold serve
    rw [hserve]
    exact h.idle
  | clear =>
    show (s.clearCache false).1.loops = []
    rw [clearCache_eq]
    exact h.idle
  | pass _ | put _ _ _ | get _ _ | clearAll _ | cancel => exact h.idle
  | cancelAt _ | interruptAt _ | spawn _ _ => exact (unmoved_spawn s rfl).loops.trans h.idle

end Service

end CacheWarden
