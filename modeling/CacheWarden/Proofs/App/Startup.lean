import CacheWarden.Proofs.App.Feed
import CacheWarden.Proofs.Cache.Registration
/-!
The check at the start, and what it is good for.

An application looks once whether the region that is registered for feed discovery is
the one of its handle.  Since registrations are for good, that stays true whatever
happens to the application and to the cache that it shares: other regions of the same
name, further registrations, clears and puts through any handle.  So its evictor
never fails, and always reaches the region of the handle and no other (`Reliable`).

`startup_sound` says when an application starts, and that every application that has
started is reliable.
-/

namespace CacheWarden

/-- What may happen once an application has started: a moment of its own life, or an operation of
anybody else on the regions or the registry. -/
inductive Occurrence where
  | moment (m : Moment)
  | operation (op : Operation)

namespace App

/-- What an occurrence makes of an application. -/
def undergo (a : App) : Occurrence → App
  | .moment m => (a.meet m).1
  | .operation op =>
    { a with service := { a.service with cache := (a.service.cache.perform op).1 } }

/-- The application behind some occurrences. -/
def behind (a : App) (os : List Occurrence) : App := os.foldl undergo a

/-! ### What stays true -/

/-- The evictor's region is the one of the handle and holds values, and no clear has failed. -/
structure Sound (a : App) (feed : RegionId) : Prop where
  handle : a.feed = feed
  bound : ∃ r, Bound a r
  unfailing : ∀ w ∈ a.service.sweeps, ∃ n, w.result = .ok n

namespace Sound

variable {a : App} {feed : RegionId}

theorem meet (h : Sound a feed) (m : Moment) : Sound (a.meet m).1 feed := by
  obtain ⟨r, hb⟩ := h.bound
  have hfeed := (feed_meet a m).trans h.handle
  cases (hb.meet m).1 with
  | own other bound evicted sweeps =>
    refine ⟨hfeed, ⟨_, bound⟩, ?_⟩
    rw [sweeps]
    exact h.unfailing
  | evict cause bound evicted sweeps =>
    obtain ⟨last, hlast, hsweeps⟩ := sweeps
    refine ⟨hfeed, ⟨_, bound⟩, ?_⟩
    intro w hw
    rw [hsweeps, List.mem_append, List.mem_singleton] at hw
    rcases hw with hw | rfl
    · exact h.unfailing w hw
    · -- the new clear removed what the region held
      exact ⟨r.size, hlast⟩

/-- Nobody else's operation takes the registration of the region back, or makes it another kind of
region. -/
theorem operate (h : Sound a feed) (op : Operation) :
    Sound (a.undergo (.operation op)) feed := by
  obtain ⟨r, hb⟩ := h.bound
  obtain ⟨r', hr'⟩ := Cache.HoldsValues.perform ⟨r, hb.region⟩ op
  refine ⟨h.handle, ⟨r', ?_, hr', hb.courses⟩, h.unfailing⟩
  -- the name is taken, so the operation cannot claim it
  show (a.service.cache.perform op).1.lookup? feedRegion = some a.feed
  rw [Cache.lookup?_perform, hb.registered, Option.some_or]

theorem behind (h : Sound a feed) (os : List Occurrence) : Sound (a.behind os) feed := by
  induction os generalizing a with
  | nil => exact h
  | cons o os ih =>
    apply ih
    cases o with
    | moment m => exact h.meet m
    | operation op => exact h.operate op

/-- A clear of the evictor is a clear of the handle's region, and changes nothing but that region
and what is taken down of it. -/
theorem clear_eq (h : Sound a feed) :
    (a.meet .clear).2 = .cleared (.ok (a.service.cache.sizeOf feed)) ∧
      ∃ evictor meter sweeps notices,
        (a.meet .clear).1 = { a with service := { a.service with
          cache := (a.service.cache.clearAll feed).1
          evictor, meter, sweeps, notices } } := by
  obtain ⟨r, hb⟩ := h.bound
  have hsize : a.service.cache.sizeOf feed = r.size := by
    rw [← h.handle]
    exact hb.held_eq
  have hcache : a.service.swept.1 = (a.service.cache.clearAll feed).1 := by
    rw [hb.swept_eq, h.handle]
  -- no course is prescribed, so the clear takes no time and does not ask for the cancellation
  have hcourse : a.service.course = .smooth := by
    unfold Service.course
    rw [hb.courses]
    rfl
  have hend : a.service.sweepEnd = a.service.now := by
    unfold Service.sweepEnd
    rw [hcourse]
    rfl
  have hcancelled : (a.service.cancelled || a.service.course.cancels) = a.service.cancelled := by
    rw [hcourse]
    exact Bool.or_false _
  have hcourses : a.service.courses.tail = a.service.courses := by
    rw [hb.courses]
    rfl
  have hclear := a.service.clearCache_eq false
  rw [hend, hcancelled, hcourses, hcache, hb.swept_result] at hclear
  have hmeet : a.meet .clear = ({ a with service := (a.service.clearCache false).1 },
      .cleared (a.service.clearCache false).2) := rfl
  rw [hmeet, hclear, hsize]
  exact ⟨rfl, _, _, _, _, rfl⟩

end Sound

/-- Whatever happens behind its start, an application's evictor clears the region of the handle. -/
structure Reliable (a : App) (feed : RegionId) : Prop where
  handle : a.feed = feed
  /-- A clear that a caller asks for succeeds, tells how many entries the region held, and leaves
  none. -/
  cleared : ∀ os, let b := a.behind os; let c := (b.meet .clear).1
    (b.meet .clear).2 = .cleared (.ok (b.service.cache.sizeOf feed)) ∧
      c.service.cache.sizeOf feed = 0 ∧ ∀ key, c.service.cache.get? feed key = none
  /-- It leaves every other region and all registrations alone, and all else but what is taken down
  of it. -/
  untouched : ∀ os, let b := a.behind os; let c := (b.meet .clear).1
    (∀ id, id ≠ feed → c.service.cache.region? id = b.service.cache.region? id) ∧
      c.service.cache.registry = b.service.cache.registry ∧
      ∃ cache evictor meter sweeps notices,
        c = { b with service := { b.service with cache, evictor, meter, sweeps, notices } }
  /-- No clear that was ever done, by the loop or for a caller, has failed. -/
  unfailing : ∀ os, ∀ w ∈ (a.behind os).service.sweeps, ∃ n, w.result = .ok n

namespace Sound

variable {a : App} {feed : RegionId}

/-- A clear of the evictor makes of the regions what a clear through the handle does. -/
theorem cache_clear (h : Sound a feed) :
    (a.meet .clear).1.service.cache = (a.service.cache.clearAll feed).1 := by
  obtain ⟨-, evictor, meter, sweeps, notices, hclear⟩ := h.clear_eq
  rw [hclear]

/-- It leaves the region of the handle empty. -/
theorem emptied (h : Sound a feed) :
    (a.meet .clear).1.service.cache.sizeOf feed = 0 ∧
      ∀ key, (a.meet .clear).1.service.cache.get? feed key = none := by
  obtain ⟨r, hb⟩ := h.bound
  have hheld : a.service.cache.region? feed = some (.map r) := by
    rw [← h.handle]
    exact hb.region
  have hregion : (a.service.cache.clearAll feed).1.region? feed = some (.map r.clearAll.1) := by
    rw [Cache.region?_clearAll_self, hheld]
    rfl
  rw [h.cache_clear]
  constructor
  · simp [Cache.sizeOf, hregion, Region.size, MapRegion.size_clearAll]
  · intro key
    simp [Cache.get?, hregion, Region.get?, MapRegion.get?_clearAll]

/-- What is sound at the start is reliable. -/
theorem reliable (h : Sound a feed) : Reliable a feed where
  handle := h.handle
  cleared := fun os => ⟨(h.behind os).clear_eq.1, (h.behind os).emptied⟩
  untouched := by
    intro os b c
    have hs : Sound b feed := h.behind os
    have hcache : c.service.cache = (b.service.cache.clearAll feed).1 := hs.cache_clear
    obtain ⟨-, evictor, meter, sweeps, notices, hc⟩ := hs.clear_eq
    refine ⟨?_, ?_, _, evictor, meter, sweeps, notices, hc⟩
    · intro id hid
      rw [hcache, Cache.region?_clearAll_of_ne _ hid]
    · rw [hcache, Cache.registry_clearAll]
  unfailing := fun os => (h.behind os).unfailing

end Sound

/-! ### Starts -/

/-- An application starts if and only if the region that is registered for feed discovery is the
handle's. -/
theorem ofCache_ok_iff (settings : Settings) (epoch : Int) (cache : Cache) (feed : RegionId) :
    (∃ a, ofCache settings epoch cache feed = .ok a) ↔ cache.lookup? feedRegion = some feed := by
  unfold ofCache attempt
  rcases cache.lookup? feedRegion with - | id
  · simp
  · by_cases h : id = feed <;> simp [h]

/-- An application that has started over a cache is sound. -/
theorem Sound.ofCache {settings : Settings} {epoch : Int} {cache : Cache} {feed : RegionId}
    {a : App} (accepted : ofCache settings epoch cache feed = .ok a)
    (typed : cache.HoldsValues feed) : Sound a feed := by
  obtain ⟨r, hr⟩ := typed
  obtain ⟨ha, hb⟩ := Bound.ofCache accepted hr
  refine ⟨by rw [ha], ⟨r, hb⟩, ?_⟩
  rw [ha]
  exact nofun

/-- A registry of its own for a new feed region knows that region and no other. -/
theorem createFeed_eq (cache : Cache) :
    cache.createFeed = (⟨cache.regions ++ [.new feedRegion], [(feedRegion, cache.regions.length)]⟩,
      cache.regions.length, .ok (), [.regionRegistered feedRegion]) := by
  have hname : (⟨cache.regions ++ [.new feedRegion], []⟩ : Cache).nameOf cache.regions.length
      = feedRegion := by
    simp [Cache.nameOf, Cache.region?]
    rfl
  have hfree : (⟨cache.regions ++ [.new feedRegion], []⟩ : Cache).contains feedRegion = false := rfl
  unfold Cache.createFeed Cache.createRegistered Cache.forget Cache.create
  dsimp only
  rw [Cache.register_of_free _ (by rw [hname]; exact hfree), hname]
  rfl

/-- An application over a registry of its own always starts, and is sound. -/
theorem new_sound (settings : Settings) (epoch : Int) (cache : Cache) :
    ∃ a, new settings epoch cache = .ok a ∧ Sound a cache.regions.length := by
  have hlookup : (⟨cache.regions ++ [.new feedRegion], [(feedRegion, cache.regions.length)]⟩ :
      Cache).lookup? feedRegion = some cache.regions.length := by
    simp [Cache.lookup?, Keyed.get?]
  obtain ⟨a, ha⟩ := (ofCache_ok_iff settings epoch _ _).mpr hlookup
  refine ⟨a.tell [.regionRegistered feedRegion], ?_, ?_⟩
  · unfold new
    rw [createFeed_eq]
    dsimp only
    rw [ha]
    rfl
  · have hs : Sound a cache.regions.length :=
      .ofCache ha ⟨.new feedRegion, by simp [Cache.region?, Region.new]⟩
    obtain ⟨r, hb⟩ := hs.bound
    exact ⟨hs.handle, ⟨r, hb.registered, hb.region, hb.courses⟩, hs.unfailing⟩

/-- An attempt to start an application leaves the cache as it was, and an application that starts
works on that. -/
theorem attempt_cache (settings : Settings) (epoch : Int) (cache : Cache) (feed : RegionId) :
    (attempt settings epoch cache feed).1 = cache ∧
      ∀ a, ofCache settings epoch cache feed = .ok a → a.service.cache = cache := by
  unfold ofCache attempt
  rcases cache.lookup? feedRegion with - | id
  · simp
  · by_cases h : id = feed
    · simp [h, Service.start]
    · simp [h]

/-- **The check at the start is sound.**  For any regions and any operations on them and on their
registry, and for any handle on a region of values:

* the region of the feed's name is the first that was registered under it;
* an application starts if and only if that is the region of the handle, and whether it starts or
  is refused, the attempt changes neither a region nor a registration, and an application that
  starts works on these;
* every application that has started is reliable;
* so is one over a registry of its own, and it always starts. -/
theorem startup_sound (settings : Settings) (epoch : Int) (regions : List Region)
    (ops : List Operation) (feed : RegionId) (typed : (Cache.mk regions []).HoldsValues feed) :
    let cache := (Cache.mk regions []).after ops
    let started := ofCache settings epoch cache feed
    cache.lookup? feedRegion = ops.findSome? ((Cache.mk regions []).claimed? feedRegion) ∧
      ((∃ a, started = .ok a) ↔ cache.lookup? feedRegion = some feed) ∧
      ((attempt settings epoch cache feed).1 = cache ∧
        ∀ a, started = .ok a → a.service.cache = cache) ∧
      (∀ a, started = .ok a → Reliable a feed) ∧
      ∃ a, new settings epoch cache = .ok a ∧ Reliable a cache.regions.length := by
  intro cache started
  refine ⟨?_, ofCache_ok_iff settings epoch cache feed,
    attempt_cache settings epoch cache feed, ?_, ?_⟩
  · show ((Cache.mk regions []).after ops).lookup? feedRegion = _
    rw [Cache.lookup?_after]
    rfl
  · intro a accepted
    have hs : Sound a feed := .ofCache accepted (typed.after ops)
    exact hs.reliable
  · obtain ⟨a, ha, hs⟩ := new_sound settings epoch cache
    exact ⟨a, ha, hs.reliable⟩

/-! ### A start among regions of one name -/

/-- Two regions with the feed's name, and one that cannot be cleared. -/
def rivals : List Region := [.new feedRegion, .new feedRegion, .failing "remote" 3 "gone"]

/-- The second region of the feed's name is registered first, so the first one is refused. -/
def rivalry : List Operation := [.register 1, .register 0, .register 2]

/-- What happens later: the other region is tried again, and values are put into both. -/
def rivalLife : List Occurrence :=
  [.operation (.register 0), .moment (.serve 4), .operation (.put 1 (.text "k") .null),
    .operation (.put 0 (.text "k") .null)]

/-- Only the handle on the region that was registered first is accepted, and a later clear removes
the one entry of that region and leaves the other as it is. -/
theorem startup_sound_rivals :
    (Cache.mk rivals []).HoldsValues 1 ∧
      ∃ a, ofCache .forTests 0 ((Cache.mk rivals []).after rivalry) 1 = .ok a ∧
        let b := a.behind rivalLife
        let c := (b.meet .clear).1
        (b.meet .clear).2 = .cleared (.ok 1) ∧ c.service.cache.sizeOf 1 = 0 ∧
          c.service.cache.region? 0 = some ((Region.new feedRegion).put (.text "k") .null) := by
  have typed : (Cache.mk rivals []).HoldsValues 1 := ⟨.new feedRegion, rfl⟩
  obtain ⟨hfirst, hstarts, -, hreliable, -⟩ := startup_sound .forTests 0 rivals rivalry 1 typed
  obtain ⟨a, accepted⟩ := hstarts.mpr (hfirst.trans (by decide))
  refine ⟨typed, a, accepted, ?_⟩
  have hr := hreliable a accepted
  obtain ⟨hreply, hempty, -⟩ := hr.cleared rivalLife
  obtain ⟨hothers, -, -⟩ := hr.untouched rivalLife
  obtain rfl := Except.ok.inj accepted
  intro b c
  have hone : b.service.cache.sizeOf 1 = 1 := by
    show ((MapRegion.new feedRegion).put (Key.text "k") Json.Value.null).size = 1
    rw [MapRegion.size_put]
    simp [MapRegion.new, MapRegion.size, MapRegion.get?]
  rw [hone] at hreply
  exact ⟨hreply, hempty, hothers 0 (by decide)⟩

end App

end CacheWarden
