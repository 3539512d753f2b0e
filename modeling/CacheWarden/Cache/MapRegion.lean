import Std.Data.HashMap
/-!
A region of a cache: values by key, cleared only as a whole.

Each value that is put is an object of its own, also if an equal value was put
before; its number tells it from the other objects of the region.
-/

namespace CacheWarden

/-- A value as an object of a region. -/
structure Item (V : Type) where
  number : Nat
  value : V
deriving DecidableEq, Repr

/-- A region of values by key. -/
structure MapRegion (K V : Type) [BEq K] [Hashable K] where
  name : String
  entries : Std.HashMap K (Item V)
  /-- How many values were put so far. -/
  puts : Nat

namespace MapRegion

variable {K V : Type} [BEq K] [Hashable K]

/-- An empty region. -/
def new (name : String) : MapRegion K V := ⟨name, ∅, 0⟩

/-- The object of a key. -/
def get? (r : MapRegion K V) (key : K) : Option (Item V) := r.entries[key]?

/-- How many keys have a value. -/
def size (r : MapRegion K V) : Nat := r.entries.size

/-- No key has a value. -/
def isEmpty (r : MapRegion K V) : Bool := r.size == 0

/-- The objects of all keys. -/
def items (r : MapRegion K V) : List (Item V) := r.entries.toList.map (·.2)

/-- Puts a value, over an earlier one of that key. -/
def put (r : MapRegion K V) (key : K) (value : V) : MapRegion K V :=
  { r with entries := r.entries.insert key ⟨r.puts, value⟩, puts := r.puts + 1 }

/-- Visits the entries one after another and keeps those that the visitor wants kept; the visitor
takes a state along. -/
def retain {σ : Type} (visit : σ → K → Item V → σ × Bool) (state : σ)
    (entries : Std.HashMap K (Item V)) : σ × Std.HashMap K (Item V) :=
  entries.fold (fun (state, kept) key item =>
    let (state, keep) := visit state key item
    (state, if keep then kept.insert key item else kept)) (state, ∅)

/-- Removes every value; counts them meanwhile and tells how many there were. -/
def clearAll (r : MapRegion K V) : MapRegion K V × Nat :=
  let (removed, entries) := retain (fun removed _ _ => (removed + 1, false)) 0 r.entries
  ({ r with entries }, removed)

/-- What is counted is the size, and nothing is kept. -/
theorem clearAll_eq [EquivBEq K] [LawfulHashable K] (r : MapRegion K V) :
    r.clearAll = ({ r with entries := ∅ }, r.size) := by
  have hvisits (es : List (K × Item V)) (n : Nat) :
      es.foldl (fun a _ => (a.1 + 1, a.2)) (n, (∅ : Std.HashMap K (Item V)))
        = (n + es.length, ∅) := by
    induction es generalizing n with
    | nil => rfl
    | cons e es ih => rw [List.foldl_cons, ih, List.length_cons, Nat.add_right_comm, Nat.add_assoc]
  have hretain : retain (fun removed _ _ => (removed + 1, false)) 0 r.entries = (r.size, ∅) := by
    unfold retain
    rw [Std.HashMap.fold_eq_foldl_toList]
    refine (hvisits r.entries.toList 0).trans ?_
    rw [Std.HashMap.length_toList, Nat.zero_add]
    rfl
  unfold clearAll
  rw [hretain]

end MapRegion

end CacheWarden
