import CacheWarden.Cache.Error
import CacheWarden.Cache.MapRegion
import CacheWarden.Json.Value
import CacheWarden.Text.Numeral
/-!
Regions of every kind, as the registry sees them: with a name, a size, and a way
to clear them.
-/

namespace CacheWarden

/-- A key: a text or a number. -/
inductive Key where
  | text (value : String)
  | number (value : Nat)
deriving DecidableEq, Hashable, Repr

/-- A region. -/
inductive Region where
  /-- Values by key. -/
  | map (entries : MapRegion Key Json.Value)
  /-- A region behind a connection that fails: it tells its size and cannot be cleared. -/
  | failing (name : String) (size : Nat) (reason : String)

namespace Region

/-- An empty region of values by key. -/
def new (name : String) : Region := .map (.new name)

/-- The region's name. -/
def name : Region → String
  | .map m => m.name
  | .failing name _ _ => name

/-- How many entries it holds. -/
def size : Region → Nat
  | .map m => m.size
  | .failing _ size _ => size

/-- It holds no entry. -/
def isEmpty (r : Region) : Bool := r.size == 0

/-- The object of a key. -/
def get? (r : Region) (key : Key) : Option (Item Json.Value) :=
  match r with
  | .map m => m.get? key
  | .failing _ _ _ => none

/-- The objects of all keys. -/
def items : Region → List (Item Json.Value)
  | .map m => m.items
  | .failing _ _ _ => []

/-- Puts a value. -/
def put (r : Region) (key : Key) (value : Json.Value) : Region :=
  match r with
  | .map m => .map (m.put key value)
  | .failing name size reason => .failing name size reason

/-- Removes every entry; tells how many there were. -/
def clearAll : Region → Region × Except CacheError Nat
  | .map m =>
    let (m, n) := m.clearAll
    (.map m, .ok n)
  | .failing name size reason => (.failing name size reason, .error (.unavailable name reason))

/-- A region's name and size in one text. -/
def describe (r : Region) : String :=
  "MapRegion \x7b name: " ++ Text.quoted r.name ++ ", len: " ++
    Text.ordinal r.size ++ " \x7d"

end Region

end CacheWarden
