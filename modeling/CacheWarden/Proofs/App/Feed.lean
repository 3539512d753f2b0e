import CacheWarden.Proofs.App.Life
import CacheWarden.Proofs.Cache.Content
/-!
The feed region of an application.

The region that the evictor clears by name is the very one that the application's
handle leads to, and it holds values by key (`Bound`).  So a moment changes it in
one of two ways (`Change`): by the callers' work on it, or by a clear that succeeds
and tells how many entries there were.
-/

namespace CacheWarden

/-! ### The callers' own work -/

namespace Moment

/-- What callers make of a region of values at a moment. -/
def onMap (id : RegionId) : Moment → MapRegion Key Json.Value → MapRegion Key Json.Value
  | .put i key value, r => if i = id then r.put key value else r
  | .clearAll i, r => if i = id then r.clearAll.1 else r
  | _, r => r

theorem onRegion_map (id : RegionId) (m : Moment) (r : MapRegion Key Json.Value) :
    m.onRegion id (.map r) = .map (m.onMap id r) := by
  cases m with
  | put i key value =>
    show (if i = id then _ else _) = Region.map (if i = id then _ else _)
    split <;> rfl
  | clearAll i =>
    show (if i = id then _ else _) = Region.map (if i = id then _ else _)
    split <;> rfl
  | turn | pass _ | serve _ | clear | get _ _ | cancel | cancelAt _ | interruptAt _ | spawn _ _ =>
    rfl

/-- Callers put a value into the region, clear it, or leave it alone. -/
theorem onMap_cases (id : RegionId) (m : Moment) (r : MapRegion Key Json.Value) :
    (∃ key value, m = .put id key value ∧ m.onMap id r = r.put key value) ∨
      (m = .clearAll id ∧ m.onMap id r = r.clearAll.1) ∨
      ((∀ key value, m ≠ .put id key value) ∧ m ≠ .clearAll id ∧ m.onMap id r = r) := by
  cases m with
  | put i key value =>
    by_cases hi : i = id
    · subst hi
      exact .inl ⟨key, value, rfl, if_pos rfl⟩
    · exact .inr (.inr ⟨fun _ _ e => hi (by injection e), nofun, if_neg hi⟩)
  | clearAll i =>
    by_cases hi : i = id
    · subst hi
      exact .inr (.inl ⟨rfl, if_pos rfl⟩)
    · exact .inr (.inr ⟨nofun, fun e => hi (by injection e), if_neg hi⟩)
  | turn | pass _ | serve _ | clear | get _ _ | cancel | cancelAt _ | interruptAt _ | spawn _ _ =>
    exact .inr (.inr ⟨nofun, nofun, rfl⟩)

/-- Work on a region puts only new objects, and their numbers are never used again. -/
theorem since_onMap (id : RegionId) (m : Moment) {r : MapRegion Key Json.Value} {n : Nat} :
    (n ≤ r.puts → n ≤ (m.onMap id r).puts) ∧ (r.Since n → (m.onMap id r).Since n) := by
  rcases onMap_cases id m r with ⟨key, value, -, e⟩ | ⟨-, e⟩ | ⟨-, -, e⟩ <;> rw [e]
  · exact ⟨Nat.le_succ_of_le, fun h => h.put key value⟩
  · exact ⟨fun h => h, fun h => MapRegion.since_clearAll h.puts⟩
  · exact ⟨fun h => h, fun h => h⟩

end Moment

namespace App

/-! ### The feed region -/

/-- The object that a get of a key finds in the feed region. -/
def found (a : App) (key : Key) : Option (Item Json.Value) := a.service.cache.get? a.feed key

/-- How many entries the feed region holds. -/
def held (a : App) : Nat := a.service.cache.sizeOf a.feed

/-- How many entries the evictor has removed, as it counts them. -/
def evicted (a : App) : UInt64 := a.service.evictor.counters.evictedItems

/-- A put adds an entry to the feed region if its key has none. -/
def fresh (a : App) : Moment → Nat
  | .put id key _ => if id = a.feed ∧ (a.found key).isNone = true then 1 else 0
  | _ => 0

theorem fresh_put (a : App) (key : Key) (value : Json.Value) :
    a.fresh (.put a.feed key value) = if (a.found key).isNone then 1 else 0 := by
  simp [fresh]

/-- Only a put into the feed region adds an entry to it. -/
theorem fresh_eq_zero {a : App} {m : Moment} (h : ∀ key value, m ≠ .put a.feed key value) :
    a.fresh m = 0 := by
  cases m with
  | put id key value => exact if_neg fun e => h key value (by rw [e.1])
  | turn | pass _ | serve _ | clear | get _ _ | clearAll _ | cancel | cancelAt _ | interruptAt _
  | spawn _ _ => rfl

/-- How many puts add an entry to the feed region in the course of some moments. -/
def freshPuts : App → List Moment → Nat
  | _, [] => 0
  | a, m :: ms => a.fresh m + freshPuts (a.meet m).1 ms

/-- The application's feed region is the one that the evictor clears, it holds these values, and
clears go smoothly. -/
structure Bound (a : App) (r : MapRegion Key Json.Value) : Prop where
  registered : a.service.cache.lookup? feedRegion = some a.feed
  region : a.service.cache.region? a.feed = some (.map r)
  courses : a.service.courses = []

/-- What a moment makes of the regions, of what the evictor counts, and of the list of clears. -/
inductive Change (a : App) (r : MapRegion Key Json.Value) (m : Moment) (a' : App) : Prop
  /-- The feed region is what callers make of it. -/
  | own (other : m ≠ .clear) (bound : Bound a' (m.onMap a.feed r))
      (evicted : a'.evicted = a.evicted) (sweeps : a'.service.sweeps = a.service.sweeps)
  /-- The evictor clears. -/
  | evict (cause : m = .clear ∨ m = .turn ∧ a.service.loops ≠ []) (bound : Bound a' r.clearAll.1)
      (evicted : a'.evicted = a.evicted + .ofNat r.size)
      (sweeps : ∃ w : Sweep, w.result = .ok r.size ∧
        a'.service.sweeps = a.service.sweeps ++ [w])

namespace Bound

variable {a : App} {r : MapRegion Key Json.Value}

theorem found_eq (h : Bound a r) (key : Key) : a.found key = r.get? key := by
  simp [found, Cache.get?, h.region, Region.get?]

theorem held_eq (h : Bound a r) : a.held = r.size := by
  simp [held, Cache.sizeOf, h.region, Region.size]

/-- An application that was accepted is bound to its feed region. -/
theorem ofCache {settings : Settings} {epoch : Int} {cache : Cache} {feed : RegionId}
    (accepted : ofCache settings epoch cache feed = .ok a)
    (typed : cache.region? feed = some (.map r)) :
    a = ⟨settings, feed, .start epoch settings.shutdownTimeout cache (.ofSettings settings) []⟩ ∧
      Bound a r := by
  unfold App.ofCache attempt at accepted
  split at accepted
  · cases accepted
  · rename_i id hid
    split at accepted
    · rename_i hfeed
      subst hfeed
      obtain rfl := Except.ok.inj accepted
      exact ⟨rfl, hid, typed, rfl⟩
    · cases accepted

/-- A clear of the evictor is a clear of the feed region. -/
theorem swept_eq (h : Bound a r) : a.service.swept = a.service.cache.clearAll a.feed := by
  have hcourse : a.service.course.failure = none := by
    unfold Service.course
    rw [h.courses]
    rfl
  unfold Service.swept
  rw [hcourse]
  exact Cache.clear_of_lookup _ h.registered

theorem swept_result (h : Bound a r) : a.service.swept.2 = .ok r.size := by
  rw [h.swept_eq, Cache.result_clearAll, h.region]
  show (Region.clearAll (.map r)).2 = _
  rw [Region.clearAll_map]

/-- Every moment changes the feed region in one of the two ways, and each other region by the work
on it. -/
theorem meet (h : Bound a r) (m : Moment) :
    Change a r m (a.meet m).1 ∧
      ∀ id, id ≠ a.feed → (a.meet m).1.service.cache.region? id
        = (a.service.cache.region? id).map (m.onRegion id) := by
  have hfeed := feed_meet a m
  cases a.deed_meet m with
  | own other cache counters courses sweeps =>
    refine ⟨.own other ⟨?_, ?_, courses.trans h.courses⟩ ?_ sweeps, ?_⟩
    · rw [cache, hfeed, ← h.registered]
      exact congrArg _ (m.registry_onCache _)
    · rw [cache, hfeed, m.region?_onCache, h.region, Option.map_some, m.onRegion_map]
    · exact congrArg Counters.evictedItems counters
    · intro id _
      rw [cache, m.region?_onCache]
  | evict cause cache evicted courses sweeps =>
    -- no caller works on a region at a moment at which the evictor clears
    have hown (id : RegionId) : m.onRegion id = fun r => r := by
      rcases cause with rfl | ⟨rfl, -⟩ <;> rfl
    rw [h.swept_eq] at cache
    rw [h.swept_result] at evicted sweeps
    refine ⟨.evict cause ⟨?_, ?_, by rw [courses, h.courses]; rfl⟩ evicted sweeps, ?_⟩
    · rw [cache, hfeed, ← h.registered]
      exact congrArg _ (Cache.registry_clearAll ..)
    · rw [cache, hfeed, Cache.region?_clearAll_self, h.region]
      rfl
    · intro id hid
      rw [cache, Cache.region?_clearAll_of_ne _ hid, hown, Option.map_id']

/-! ### One moment -/

/-- A key that nothing is put under has its object until the feed region is cleared, and then
none. -/
theorem found_meet (h : Bound a r) {m : Moment} {key : Key} (unput : ¬ a.Puts key [m]) :
    (a.Clears [m] → (a.meet m).1.found key = none) ∧
      (¬ a.Clears [m] → (a.meet m).1.found key = a.found key) := by
  have hput (value : Json.Value) : m ≠ .put a.feed key value :=
    fun e => unput ⟨value, by simp [e]⟩
  cases (h.meet m).1 with
  | own other bound evicted sweeps =>
    have hkept : ¬ a.Evicts [m] := fun e => e sweeps
    rw [bound.found_eq, h.found_eq]
    rcases m.onMap_cases a.feed r with ⟨other, value, hm, e⟩ | ⟨hm, e⟩ | ⟨-, hm, e⟩ <;> rw [e]
    · -- the put is about another key
      have hne : key ≠ other := fun he => hput value (by rw [hm, he])
      refine ⟨fun hc => ?_, fun _ => r.get?_put_of_ne hne value⟩
      rcases hc with hc | hc
      · exact absurd hc hkept
      · rw [hm] at hc
        cases List.mem_singleton.mp hc
    · exact ⟨fun _ => r.get?_clearAll key, fun hn => absurd (.inr (by simp [hm])) hn⟩
    · refine ⟨fun hc => ?_, fun _ => rfl⟩
      rcases hc with hc | hc
      · exact absurd hc hkept
      · exact absurd (List.mem_singleton.mp hc).symm hm
  | evict cause bound evicted sweeps =>
    obtain ⟨w, -, hw⟩ := sweeps
    refine ⟨fun _ => ?_, fun hn => absurd (.inl ?_) hn⟩
    · rw [bound.found_eq, MapRegion.get?_clearAll]
    · exact (evicts_iff a [m] hw).mpr (List.cons_ne_nil w [])

/-- Behind a clear, all objects of the feed region are new, and they stay so. -/
theorem since_meet (h : Bound a r) (m : Moment) {n : Nat} (puts : n ≤ r.puts) :
    ∃ r', Bound (a.meet m).1 r' ∧ n ≤ r'.puts ∧ (r.Since n ∨ a.Clears [m] → r'.Since n) := by
  cases (h.meet m).1 with
  | own other bound evicted sweeps =>
    obtain ⟨hputs, hold⟩ := Moment.since_onMap a.feed m
    refine ⟨_, bound, hputs puts, ?_⟩
    rintro (hs | hc | hc)
    · exact hold hs
    · exact absurd sweeps hc
    · obtain rfl := List.mem_singleton.mp hc
      have honto : Moment.onMap a.feed (.clearAll a.feed) r = r.clearAll.1 := if_pos rfl
      rw [honto]
      exact MapRegion.since_clearAll puts
  | evict cause bound evicted sweeps =>
    exact ⟨_, bound, puts, fun _ => MapRegion.since_clearAll puts⟩

/-- What is removed is counted, and what is added is there. -/
theorem conserved_meet (h : Bound a r) {m : Moment} (unclear : m ≠ .clearAll a.feed) :
    (a.meet m).1.evicted + .ofNat (a.meet m).1.held
      = a.evicted + .ofNat a.held + .ofNat (a.fresh m) := by
  cases (h.meet m).1 with
  | own other bound evicted sweeps =>
    have hsize : (m.onMap a.feed r).size = r.size + a.fresh m := by
      rcases m.onMap_cases a.feed r with ⟨key, value, hm, e⟩ | ⟨hm, -⟩ | ⟨hm, -, e⟩
      · rw [e, hm, r.size_put, fresh_put, h.found_eq]
      · exact absurd hm unclear
      · rw [e, fresh_eq_zero hm, Nat.add_zero]
    rw [bound.held_eq, hsize, h.held_eq, evicted, UInt64.ofNat_add, UInt64.add_assoc]
  | evict cause bound evicted sweeps =>
    have hfresh : a.fresh m = 0 :=
      fresh_eq_zero (by rcases cause with rfl | ⟨rfl, -⟩ <;> exact nofun)
    rw [bound.held_eq, MapRegion.size_clearAll, h.held_eq, evicted, hfresh]

end Bound

end App

end CacheWarden
