import CacheWarden.Proofs.App.Feed
/-!
The data law of a whole application.

`ofCache_dataLaw` says what becomes of the data in any life of an application that was
accepted: the evictor's clears empty the feed region and reach no other region; what
is put stays until it is replaced or cleared, and then is gone for good; and what the
evictor counts as removed, with what is there, is what there was, with the entries
that were added (`DataLaw`).

Each part has a lemma about one moment, from the two ways in which the feed region
changes, and a lemma about a run by induction on the moments.
-/

namespace CacheWarden

/-- What callers make of a region at some moments, one after another. -/
def Moment.replay (id : RegionId) (ms : List Moment) (r : Region) : Region :=
  ms.foldl (fun r m => m.onRegion id r) r

namespace App

namespace Bound

variable {a : App} {r : MapRegion Key Json.Value}

/-! ### Lives -/

theorem found_after (h : Bound a r) {ms : List Moment} {key : Key} (unput : ¬ a.Puts key ms) :
    (a.Clears ms → (a.after ms).found key = none) ∧
      (¬ a.Clears ms → (a.after ms).found key = a.found key) := by
  induction ms generalizing a r with
  | nil => exact ⟨fun hc => absurd hc a.not_clears_nil, fun _ => rfl⟩
  | cons m ms ih =>
    obtain ⟨r', hb, -⟩ := h.since_meet m (Nat.zero_le _)
    have hhead : ¬ a.Puts key [m] := by
      rintro ⟨value, hv⟩
      exact unput ⟨value, by simp [List.mem_singleton.mp hv]⟩
    have htail : ¬ (a.meet m).1.Puts key ms := by
      rintro ⟨value, hv⟩
      rw [feed_meet] at hv
      exact unput ⟨value, List.mem_cons_of_mem m hv⟩
    obtain ⟨hcleared, hkept⟩ := h.found_meet hhead
    obtain ⟨hclearedThen, hkeptThen⟩ := ih hb htail
    rw [after_cons, clears_cons]
    -- a key that was cleared at the first moment misses to the end, whether or not there is more
    refine ⟨fun hc => ?_, fun hn => ?_⟩
    · by_cases hthen : (a.meet m).1.Clears ms
      · exact hclearedThen hthen
      · rw [hkeptThen hthen]
        exact hcleared (hc.resolve_right hthen)
    · rw [hkeptThen fun hc => hn (.inr hc), hkept fun hc => hn (.inl hc)]

theorem since_after (h : Bound a r) (ms : List Moment) {n : Nat} (puts : n ≤ r.puts) :
    ∃ r', Bound (a.after ms) r' ∧ (r.Since n ∨ a.Clears ms → r'.Since n) := by
  induction ms generalizing a r with
  | nil => exact ⟨r, h, fun hs => hs.resolve_right a.not_clears_nil⟩
  | cons m ms ih =>
    obtain ⟨next, hb, hputs, hnext⟩ := h.since_meet m puts
    obtain ⟨r', hb', hsince⟩ := ih hb hputs
    refine ⟨r', hb', ?_⟩
    rw [clears_cons]
    rintro (hs | hc | hc)
    · exact hsince (.inl (hnext (.inl hs)))
    · exact hsince (.inl (hnext (.inr hc)))
    · exact hsince (.inr hc)

theorem conserved_after (h : Bound a r) {ms : List Moment} (unclear : .clearAll a.feed ∉ ms) :
    (a.after ms).evicted + .ofNat (a.after ms).held
      = a.evicted + .ofNat a.held + .ofNat (a.freshPuts ms) := by
  induction ms generalizing a r with
  | nil => exact (UInt64.add_zero _).symm
  | cons m ms ih =>
    obtain ⟨r', hb, -⟩ := h.since_meet m (Nat.zero_le _)
    obtain ⟨hm, hms⟩ : m ≠ .clearAll a.feed ∧ .clearAll a.feed ∉ ms := by
      simpa [eq_comm] using unclear
    rw [after_cons, ih hb (by rw [feed_meet]; exact hms), h.conserved_meet hm, freshPuts,
      UInt64.ofNat_add, UInt64.add_assoc]

theorem region?_after (h : Bound a r) (ms : List Moment) {id : RegionId} (other : id ≠ a.feed) :
    (a.after ms).service.cache.region? id
      = (a.service.cache.region? id).map (Moment.replay id ms) := by
  induction ms generalizing a r with
  | nil => exact (congrFun Option.map_id (a.service.cache.region? id)).symm
  | cons m ms ih =>
    obtain ⟨r', hb, -⟩ := h.since_meet m (Nat.zero_le _)
    rw [after_cons, ih hb (by rw [feed_meet]; exact other), (h.meet m).2 id other, Option.map_map]
    rfl

/-- A clear of the evictor tells what was there, and nothing is there behind it. -/
theorem swept (h : Bound a r) {m : Moment} (evicts : a.Evicts [m]) :
    (∃ w : Sweep, w.result = .ok a.held ∧
        (a.meet m).1.service.sweeps = a.service.sweeps ++ [w]) ∧
      (a.meet m).1.held = 0 ∧ ∀ key, (a.meet m).1.found key = none := by
  cases (h.meet m).1 with
  | own other bound evicted sweeps => exact absurd sweeps evicts
  | evict cause bound evicted sweeps =>
    rw [h.held_eq]
    refine ⟨sweeps, by rw [bound.held_eq, MapRegion.size_clearAll], ?_⟩
    intro key
    rw [bound.found_eq, MapRegion.get?_clearAll]

/-- An object that is put is found until it is replaced or cleared, and never again behind a
clear. -/
theorem kept (h : Bound a r) (key : Key) (value : Json.Value) :
    let b := a.after [.put a.feed key value]
    ∃ item, item.value = value ∧ ∀ rest,
      (¬ b.Puts key rest → ¬ b.Clears rest → (b.after rest).found key = some item) ∧
      (b.Clears rest → ∀ other, (b.after rest).found other ≠ some item) := by
  intro b
  have hb : Bound b (r.put key value) := by
    cases (h.meet (.put a.feed key value)).1 with
    | own other bound evicted sweeps =>
      have honto : Moment.onMap a.feed (.put a.feed key value) r = r.put key value := if_pos rfl
      rw [honto] at bound
      exact bound
    | evict cause bound evicted sweeps => rcases cause with hc | ⟨hc, -⟩ <;> cases hc
  refine ⟨⟨r.puts, value⟩, rfl, fun rest => ⟨?_, ?_⟩⟩
  · intro unput unclear
    rw [(hb.found_after unput).2 unclear, hb.found_eq, r.get?_put_self]
  · intro hclears other hfound
    -- the numbers behind the clear begin behind that of the object
    obtain ⟨r', hb', hsince⟩ := hb.since_after rest (Nat.le_refl (r.put key value).puts)
    rw [hb'.found_eq] at hfound
    exact Nat.not_succ_le_self _ ((hsince (.inr hclears)).number other _ hfound)

/-- Where the loop is switched off and no caller asks for a clear, the evictor does not touch the
feed region. -/
theorem dormant_after (h : Bound a r) (dormant : a.service.Dormant) {ms : List Moment}
    (unasked : .clear ∉ ms) :
    ¬ a.Evicts ms ∧
      (a.after ms).service.cache.region? a.feed = some (Moment.replay a.feed ms (.map r)) := by
  induction ms generalizing a r with
  | nil => exact ⟨a.not_evicts_nil, h.region⟩
  | cons m ms ih =>
    obtain ⟨hm, hms⟩ : m ≠ .clear ∧ .clear ∉ ms := by simpa [eq_comm] using unasked
    cases (h.meet m).1 with
    | own other bound evicted sweeps =>
      obtain ⟨hnone, hregion⟩ := ih bound (dormant_meet dormant m) hms
      refine ⟨?_, ?_⟩
      · rw [evicts_cons]
        rintro (he | he)
        · exact he sweeps
        · exact hnone he
      · rw [feed_meet, ← m.onRegion_map] at hregion
        exact hregion
    | evict cause bound evicted sweeps =>
      -- neither a caller nor a loop could have cleared
      rcases cause with rfl | ⟨-, hloops⟩
      · exact absurd rfl hm
      · exact absurd dormant.idle hloops

end Bound

/-! ### The law -/

/-- The data law, of an application at its start. -/
structure DataLaw (a : App) : Prop where
  /-- A clear of the evictor succeeds and tells how many entries there were; right behind it, the
  feed region is empty and every key misses. -/
  swept : ∀ ms m, let s := a.after ms; let b := a.after (ms ++ [m])
    s.Evicts [m] →
      (∃ w : Sweep, w.result = .ok s.held ∧ b.service.sweeps = s.service.sweeps ++ [w]) ∧
        b.held = 0 ∧ ∀ key, b.found key = none
  /-- A clear that a caller asks for is one. -/
  asked : ∀ ms, (a.after ms).Evicts [.clear]
  /-- A tick of the loop is one. -/
  ticked : ∀ ms t, let s := a.after ms
    s.service.turn? = some ((s.service.drop t).tick t) → s.Evicts [.turn]
  /-- A get answers with the value of the object that it finds. -/
  answered : ∀ ms key, let s := a.after ms
    (s.meet (.get a.feed key)).2 = .value ((s.found key).map (·.value))
  /-- What is put is found until something else is put under its key or the region is cleared; and
  the very object is never found again behind that clear. -/
  kept : ∀ ms key value, let b := a.after (ms ++ [.put a.feed key value])
    ∃ item, item.value = value ∧ ∀ rest,
      (¬ b.Puts key rest → ¬ b.Clears rest → (b.after rest).found key = some item) ∧
      (b.Clears rest → ∀ other, (b.after rest).found other ≠ some item)
  /-- Behind a clear, a key misses until something is put under it. -/
  missed : ∀ ms key rest, let b := a.after ms
    ¬ b.Puts key rest → b.Clears rest → (b.after rest).found key = none
  /-- Any other region is what its own callers make of it. -/
  others : ∀ ms id, id ≠ a.feed →
    (a.after ms).service.cache.region? id = (a.service.cache.region? id).map (Moment.replay id ms)
  /-- Unless a caller clears the feed region through a handle, the entries that were evicted and
  those that are there are those of the start and those that were added. -/
  conserved : ∀ ms, .clearAll a.feed ∉ ms →
    ((a.after ms).evicted.toNat + (a.after ms).held) % wordBound
      = (a.held + a.freshPuts ms) % wordBound
  /-- With eviction switched off and no clear asked for, the feed region is never cleared by the
  evictor, and is what callers make of it. -/
  disabled : a.settings.isEvictionEnabled = false → ∀ ms, .clear ∉ ms →
    ¬ a.Evicts ms ∧ (a.after ms).service.cache.region? a.feed
      = (a.service.cache.region? a.feed).map (Moment.replay a.feed ms)

/-- **The data law.**  It holds of every application that is accepted over a cache, with a handle on
a region of values: the application's feed region is that of the handle, its regions are those of
the cache, and nothing is counted yet. -/
theorem ofCache_dataLaw {settings : Settings} {epoch : Int} {cache : Cache} {feed : RegionId}
    {a : App} {r : MapRegion Key Json.Value} (accepted : ofCache settings epoch cache feed = .ok a)
    (typed : cache.region? feed = some (.map r)) :
    a.settings = settings ∧ a.feed = feed ∧ a.service.cache = cache ∧ a.evicted = 0 ∧
      DataLaw a := by
  obtain ⟨heq, hbound⟩ := Bound.ofCache accepted typed
  have hzero : a.evicted = 0 := by
    rw [heq]
    rfl
  have hafter (ms : List Moment) : ∃ r', Bound (a.after ms) r' := by
    obtain ⟨r', hb, -⟩ := hbound.since_after ms (Nat.zero_le _)
    exact ⟨r', hb⟩
  refine ⟨by rw [heq], by rw [heq], by rw [heq]; rfl, hzero, ?_⟩
  refine ⟨?_, fun ms => evicts_clear _, fun ms t => evicts_tick _, ?_, ?_, ?_,
    fun ms id => hbound.region?_after ms, ?_, ?_⟩
  · intro ms m s b hevicts
    obtain ⟨r', hb⟩ := hafter ms
    have hlast : b = (s.meet m).1 := after_append a ms [m]
    rw [hlast]
    exact hb.swept hevicts
  · intro ms key s
    rw [← feed_after a ms]
    rfl
  · intro ms key value
    obtain ⟨r', hb⟩ := hafter ms
    rw [after_append, ← feed_after a ms]
    exact hb.kept key value
  · intro ms key rest _ unput hclears
    obtain ⟨r', hb⟩ := hafter ms
    exact (hb.found_after unput).1 hclears
  · intro ms unclear
    have hword := congrArg UInt64.toNat (hbound.conserved_after unclear)
    simpa [hzero, wordBound] using hword
  · intro hdisabled ms unasked
    have hdormant : a.service.Dormant := by
      rw [heq]
      exact ⟨by rw [heq] at hdisabled; exact hdisabled, rfl⟩
    rw [hbound.region]
    exact hbound.dormant_after hdormant unasked

/-! ### An application over a shared cache -/

/-- A cache with the feed region between one that shares its name and one that cannot be cleared. -/
def sharedCache : Cache :=
  ⟨[.new feedRegion, .new feedRegion, .failing "remote" 3 "gone"],
    [(feedRegion, 1), ("remote", 2)]⟩

/-- The loop is started, and a value is put into each region of values. -/
def sharedLife : List Moment :=
  [.serve 7, .put 0 (.text "k") (.bool true), .put 1 (.text "k") .null]

/-- The loop goes to sleep, and its first delay passes. -/
def firstDelay : List Moment := [.turn, .pass 10000]

/-- When a caller asks for a clear, what was put into the feed region is gone, and the other regions
are untouched.  So it is when the loop has slept for its first delay and takes its turn. -/
theorem ofCache_dataLaw_shared :
    sharedCache.region? 1 = some (.map (.new feedRegion)) ∧
      ∃ a, ofCache .forTests 0 sharedCache 1 = .ok a ∧
        (∃ item, item.value = .null ∧ (a.after sharedLife).found (.text "k") = some item) ∧
          ∀ ms ∈ [sharedLife ++ [.clear], sharedLife ++ firstDelay ++ [.turn]],
            let b := a.after ms
            b.held = 0 ∧ b.found (.text "k") = none ∧
              b.service.cache.region? 0
                = some ((Region.new feedRegion).put (.text "k") (.bool true)) ∧
              b.service.cache.region? 2 = some (.failing "remote" 3 "gone") := by
  have typed : sharedCache.region? 1 = some (.map (.new feedRegion)) := rfl
  obtain ⟨a, accepted⟩ : ∃ a, ofCache .forTests 0 sharedCache 1 = .ok a := ⟨_, rfl⟩
  obtain ⟨-, hfeed, hcache, -, law⟩ := ofCache_dataLaw accepted typed
  refine ⟨typed, a, accepted, ?_, ?_⟩
  · obtain ⟨item, hvalue, hitem⟩ :=
      law.kept [.serve 7, .put 0 (.text "k") (.bool true)] (.text "k") .null
    rw [hfeed] at hitem
    exact ⟨item, hvalue, (hitem []).1 nofun (not_clears_nil _)⟩
  · intro ms hms b
    have hothers := law.others ms
    rw [hfeed, hcache] at hothers
    simp only [List.mem_cons, List.not_mem_nil, or_false] at hms
    rcases hms with rfl | rfl
    · obtain ⟨-, hheld, hfound⟩ := law.swept sharedLife .clear (law.asked sharedLife)
      exact ⟨hheld, hfound _, hothers 0 (by decide), hothers 2 (by decide)⟩
    · -- the loop is the only task, and due
      obtain ⟨htasks, halive, hnow⟩ :
          (a.after (sharedLife ++ firstDelay)).service.tasks
              = [⟨some tracker, .evict, .until 10000⟩] ∧
            (a.after (sharedLife ++ firstDelay)).service.cancelled = false ∧
            (a.after (sharedLife ++ firstDelay)).service.now = 10000 := by
        obtain rfl := Except.ok.inj accepted
        exact ⟨rfl, rfl, rfl⟩
      have hturn : (a.after (sharedLife ++ firstDelay)).service.turn? = some
          (((a.after (sharedLife ++ firstDelay)).service.drop
            ⟨some tracker, .evict, .until 10000⟩).tick ⟨some tracker, .evict, .until 10000⟩) := by
        simp [Service.turn?, htasks, halive, hnow, Task.isNew, Task.isPatient, Task.earliest?,
          Task.due?, Service.perform]
      obtain ⟨-, hheld, hfound⟩ := law.swept _ .turn (law.ticked _ _ hturn)
      exact ⟨hheld, hfound _, hothers 0 (by decide), hothers 2 (by decide)⟩

end App

end CacheWarden
