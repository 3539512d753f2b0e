import CacheWarden.Proofs.Cache.Content
import Mathlib
/-!
A region of values is a finite map that can only be cleared as a whole.

Which values it has is told by what was put behind the last clear: of each key the
value that was put last, and as many entries as there are different keys
(`Shows`).  A put and a clear keep that so, whatever is put (`Shows.perform`), and
every answer can be read off it.

Keys need not be the same to count as one: it is enough that they are equal in the
sense of the keys' own equality, and that this is an equivalence.

What the clears tell adds up: with what is there in the end, it is the number of puts
whose key was absent (`total_removed_add_size`).
-/

namespace CacheWarden.MapRegion

variable {K V : Type}

/-! ### Accesses -/

/-- What can be done with a region of values. -/
inductive Access (K V : Type) where
  | put (key : K) (value : V)
  | get (key : K)
  | size
  | isEmpty
  | clearAll

/-- What an access answers. -/
inductive Finding (V : Type) where
  | done
  | value (v : Option V)
  | number (n : Nat)
  | flag (b : Bool)

namespace Access

/-- It removes every value. -/
def isClear : Access K V → Bool
  | .clearAll => true
  | .put _ _ | .get _ | .size | .isEmpty => false

/-- The key and the value that it puts. -/
def entry? : Access K V → Option (K × V)
  | .put key value => some (key, value)
  | .get _ | .size | .isEmpty | .clearAll => none

/-- What was put behind the last clear, earliest first. -/
def entered (as : List (Access K V)) : List (K × V) :=
  (as.rtakeWhile fun a => !a.isClear).filterMap entry?

end Access

/-- The value that was put last under a key. -/
def latest? [BEq K] (key : K) (es : List (K × V)) : Option V :=
  (es.reverse.find? (·.1 == key)).map (·.2)

/-- How many different keys there are. -/
def distinct [BEq K] (es : List (K × V)) : Nat := (es.map (·.1)).eraseDups.length

section

variable [BEq K] [Hashable K]

/-- Carries out an access. -/
def perform (r : MapRegion K V) : Access K V → MapRegion K V × Finding V
  | .put key value => (r.put key value, .done)
  | .get key => (r, .value ((r.get? key).map (·.value)))
  | .size => (r, .number r.size)
  | .isEmpty => (r, .flag r.isEmpty)
  | .clearAll =>
    let (r, n) := r.clearAll
    (r, .number n)

/-- The region behind some accesses. -/
def after (r : MapRegion K V) (as : List (Access K V)) : MapRegion K V :=
  as.foldl (fun r a => (r.perform a).1) r

/-- A count of single accesses, each at the region that it meets, summed over some of them. -/
def total (count : MapRegion K V → Access K V → Nat) : MapRegion K V → List (Access K V) → Nat
  | _, [] => 0
  | r, a :: as => count r a + total count (r.perform a).1 as

/-- The number that a clear tells. -/
def removed (r : MapRegion K V) : Access K V → Nat
  | .clearAll => r.clearAll.2
  | .put _ _ | .get _ | .size | .isEmpty => 0

/-- A put counts if its key is absent. -/
def added (r : MapRegion K V) : Access K V → Nat
  | .put key _ => if (r.get? key).isNone then 1 else 0
  | .get _ | .size | .isEmpty | .clearAll => 0

theorem after_concat (r : MapRegion K V) (as : List (Access K V)) (a : Access K V) :
    r.after (as ++ [a]) = ((r.after as).perform a).1 := by
  simp [after, List.foldl_append]

end

/-! ### Histories -/

theorem entered_concat (as : List (Access K V)) (a : Access K V) :
    Access.entered (as ++ [a])
      = if a.isClear then [] else Access.entered as ++ a.entry?.toList := by
  unfold Access.entered
  rw [List.rtakeWhile_concat]
  cases a <;> simp [Access.isClear, Access.entry?, List.filterMap_append]

theorem latest?_concat [BEq K] (key : K) (es : List (K × V)) (e : K × V) :
    latest? key (es ++ [e]) = if e.1 == key then some e.2 else latest? key es := by
  unfold latest?
  rw [List.reverse_append, List.reverse_singleton, List.singleton_append, List.find?_cons]
  split <;> rename_i h <;> simp [h]

section

variable [BEq K] [EquivBEq K]

/-- No value was put under a key exactly if it is equal to none of the keys. -/
theorem latest?_isNone (key : K) (es : List (K × V)) :
    (latest? key es).isNone = !(es.map (·.1)).contains key := by
  unfold latest?
  rw [Option.isNone_map, Bool.eq_iff_iff]
  simp [BEq.comm (b := key)]

/-- A key at the end is a different one unless it is equal to one of those in front of it. -/
theorem length_eraseDups_concat (ks : List K) (k : K) :
    (ks ++ [k]).eraseDups.length = ks.eraseDups.length + if ks.contains k then 0 else 1 := by
  induction hn : ks.length using Nat.strongRecOn generalizing ks with
  | ind n ih =>
    cases ks with
    | nil => rfl
    | cons a ks =>
      rw [List.cons_append, List.eraseDups_cons, List.eraseDups_cons, List.filter_append,
        List.contains_cons]
      rcases hk : k == a with - | -
      · -- the keys that are equal to the first one do not matter for another one
        have hothers : (ks.filter fun b => !b == a).contains k = ks.contains k := by
          rw [Bool.eq_iff_iff, List.contains_iff_exists_mem_beq, List.contains_iff_exists_mem_beq]
          refine ⟨fun ⟨b, hb, hkb⟩ => ⟨b, (List.mem_filter.mp hb).1, hkb⟩, ?_⟩
          rintro ⟨b, hb, hkb⟩
          refine ⟨b, List.mem_filter.mpr ⟨hb, ?_⟩, hkb⟩
          rcases hba : b == a with - | -
          · rfl
          · rw [BEq.trans hkb hba] at hk
            cases hk
        have hlt : (ks.filter fun b => !b == a).length < n := by
          rw [← hn]
          exact Nat.lt_succ_of_le (List.length_filter_le _ ks)
        have hlast : [k].filter (fun b => !b == a) = [k] := by simp [hk]
        rw [hlast, List.length_cons, List.length_cons, ih _ hlt _ rfl, hothers, Bool.false_or,
          Nat.add_right_comm]
      · have hlast : [k].filter (fun b => !b == a) = [] := by simp [hk]
        rw [hlast, List.append_nil, Bool.true_or, if_pos rfl, Nat.add_zero]

theorem distinct_concat (es : List (K × V)) (e : K × V) :
    distinct (es ++ [e]) = distinct es + if (latest? e.1 es).isNone then 1 else 0 := by
  unfold distinct
  rw [List.map_append, List.map_singleton, length_eraseDups_concat, latest?_isNone]
  rcases h : (es.map (·.1)).contains e.1 with - | - <;> simp [h]

end

/-! ### What a region shows -/

section

variable [BEq K] [Hashable K]

/-- The region has of each key the value that was put last, and an entry for each of the different
keys. -/
structure Shows (r : MapRegion K V) (es : List (K × V)) : Prop where
  value : ∀ key, (r.get? key).map (·.value) = latest? key es
  size : r.size = distinct es

theorem shows_new (name : String) : Shows (new name : MapRegion K V) [] :=
  ⟨fun _ => congrArg _ Std.HashMap.getElem?_empty, Std.HashMap.size_empty⟩

namespace Shows

variable {r : MapRegion K V} {es : List (K × V)}

/-- A key is absent if nothing was put under it. -/
theorem isNone (h : Shows r es) (key : K) : (r.get? key).isNone = (latest? key es).isNone := by
  rw [← h.value, Option.isNone_map]

variable [EquivBEq K] [LawfulHashable K]

theorem put (h : Shows r es) (key : K) (value : V) :
    Shows (r.put key value) (es ++ [(key, value)]) := by
  refine ⟨?_, ?_⟩
  · intro other
    rw [get?_put, latest?_concat]
    rcases key == other with - | -
    · exact h.value other
    · rfl
  · rw [size_put, distinct_concat, h.size, h.isNone]

theorem clear (h : Shows r es) : r.clearAll.2 = distinct es ∧ Shows r.clearAll.1 [] := by
  refine ⟨?_, ?_, ?_⟩
  · rw [clearAll_eq]
    exact h.size
  · intro key
    rw [get?_clearAll]
    rfl
  · exact size_clearAll r

/-- Each access does to the region what it does to its history. -/
theorem perform {as : List (Access K V)} (h : Shows r (Access.entered as)) (a : Access K V) :
    Shows (r.perform a).1 (Access.entered (as ++ [a])) := by
  rw [entered_concat]
  cases a with
  | put key value => exact h.put key value
  | clearAll => exact h.clear.2
  | get _ | size | isEmpty =>
    show Shows r (_ ++ [])
    rw [List.append_nil]
    exact h

end Shows

variable [EquivBEq K] [LawfulHashable K]

theorem shows_after (name : String) (as : List (Access K V)) :
    Shows ((new name).after as) (Access.entered as) := by
  induction as using List.reverseRecOn with
  | nil => exact shows_new name
  | append_singleton as a ih =>
    rw [after_concat]
    exact ih.perform a

/-! ### What is told of clears -/

/-- An access removes entries, adds one, or leaves them. -/
theorem size_perform (r : MapRegion K V) (a : Access K V) :
    r.removed a + (r.perform a).1.size = r.size + r.added a := by
  cases a with
  | put key value =>
    show 0 + (r.put key value).size = _
    rw [Nat.zero_add, size_put]
    rfl
  | clearAll =>
    show r.clearAll.2 + r.clearAll.1.size = r.size + 0
    rw [size_clearAll, clearAll_eq]
  | get _ | size | isEmpty => exact Nat.zero_add _

/-- What the clears tell and what is left is what was there and what was added. -/
theorem total_removed_add_size (r : MapRegion K V) (as : List (Access K V)) :
    total removed r as + (r.after as).size = r.size + total added r as := by
  induction as generalizing r with
  | nil => exact Nat.zero_add _
  | cons a as ih =>
    have hfirst := size_perform r a
    have hrest := ih (r.perform a).1
    show removed r a + total removed (r.perform a).1 as + ((r.perform a).1.after as).size
      = r.size + (added r a + total added (r.perform a).1 as)
    omega

/-! ### The map -/

/-- What a region answers behind some accesses, and what their answers add up to. -/
structure FiniteMap (name : String) (as : List (Access K V)) (r : MapRegion K V) : Prop where
  /-- A get finds what was put last under the key, behind the last clear. -/
  got : ∀ key, (r.perform (.get key)).2 = .value (latest? key (Access.entered as))
  /-- The size is the number of different keys that were put behind the last clear. -/
  counted : (r.perform .size).2 = .number (distinct (Access.entered as))
  empty : (r.perform .isEmpty).2 = .flag (distinct (Access.entered as) == 0)
  /-- A clear tells that number, and behind it every key misses. -/
  cleared : (r.perform .clearAll).2 = .number (distinct (Access.entered as)) ∧
    ∀ key, ((r.perform .clearAll).1.perform (.get key)).2 = .value none
  /-- A put over another one changes no size. -/
  overwritten : ∀ key value, (latest? key (Access.entered as)).isSome = true →
    ((r.perform (.put key value)).1.perform .size).2 = (r.perform .size).2
  /-- The numbers that the clears told and the size are together the number of puts whose key was
  absent. -/
  conserved : total removed (new name) as + r.size = total added (new name) as

/-- **A finite map.**  Behind any accesses to a new region, its answers are those of a map that is
filled by puts and only ever cleared as a whole; and seen as a region of whatever kind, it can
always be cleared. -/
theorem finiteMap (name : String) (as : List (Access K V)) :
    FiniteMap name as ((new name).after as) ∧
      ∀ r : MapRegion Key Json.Value,
        (Region.map r).clearAll = (.map r.clearAll.1, .ok r.clearAll.2) := by
  have h := shows_after name as
  refine ⟨⟨?_, ?_, ?_, ⟨?_, ?_⟩, ?_, ?_⟩, fun r => rfl⟩
  · intro key
    exact congrArg Finding.value (h.value key)
  · exact congrArg Finding.number h.size
  · exact congrArg (fun n => Finding.flag (n == 0)) h.size
  · exact congrArg Finding.number h.clear.1
  · intro key
    exact congrArg Finding.value (h.clear.2.value key)
  · intro key value hsome
    refine congrArg Finding.number ?_
    show (put _ key value).size = _
    rw [size_put, h.isNone, ← Option.not_isSome, hsome]
    rfl
  · rw [total_removed_add_size]
    have hnew : (new name : MapRegion K V).size = 0 := (shows_new name).size
    rw [hnew, Nat.zero_add]

end

/-- Three puts under two keys, and a fourth behind a clear. -/
def threePuts : List (Access Key Nat) :=
  [.put (.text "a") 1, .put (.number 7) 2, .put (.text "a") 3, .clearAll, .put (.text "a") 4]

/-- The clear tells two entries; behind it only the last put counts. -/
theorem finiteMap_threePuts :
    (EquivBEq Key ∧ LawfulHashable Key) ∧
      let r := (new "r").after threePuts
      (r.perform (.get (.text "a"))).2 = .value (some 4) ∧
        (r.perform (.get (.number 7))).2 = .value none ∧
        (r.perform .clearAll).2 = .number 1 ∧
        total removed (new "r") threePuts + r.size = total added (new "r") threePuts := by
  obtain ⟨law, -⟩ := finiteMap "r" threePuts
  refine ⟨⟨inferInstance, inferInstance⟩, ?_, ?_, ?_, law.conserved⟩
  · exact law.got (.text "a")
  · exact law.got (.number 7)
  · exact law.cleared.1

end CacheWarden.MapRegion
