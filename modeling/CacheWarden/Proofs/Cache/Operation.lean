import CacheWarden.Proofs.Cache.Frame
/-!
Operations on regions and on the registry, one after another.

An operation is addressed to a region if it goes through a handle on it, or by the
name under which it is registered at that moment.  A name may lead to no region now
and to one later, so whom an operation is addressed to depends on the cache that it
meets.
-/

namespace CacheWarden

/-- What can be done with regions and the registry. -/
inductive Operation where
  | register (id : RegionId)
  | put (id : RegionId) (key : Key) (value : Json.Value)
  | get (id : RegionId) (key : Key)
  | size (id : RegionId)
  | clearAll (id : RegionId)
  | clear (name : String)
  | lookup (name : String)
  | contains (name : String)
  | names

/-- What an operation answers. -/
inductive Response where
  | done
  | error (e : CacheError)
  | number (n : Nat)
  | value (v : Option (Item Json.Value))
  | region (id : Option RegionId)
  | flag (b : Bool)
  | texts (ss : List String)

/-- The answer of a result. -/
def Response.ofResult {α : Type} (f : α → Response) : Except CacheError α → Response
  | .ok a => f a
  | .error e => .error e

namespace Operation

/-- It reads or changes the entries of a region. -/
def isOnEntries : Operation → Bool
  | .put _ _ _ | .get _ _ | .size _ | .clearAll _ | .clear _ => true
  | .register _ | .lookup _ | .contains _ | .names => false

end Operation

namespace Cache

/-- Carries out an operation. -/
def perform (c : Cache) : Operation → Cache × Response
  | .register id =>
    let (c, result, _) := c.register id
    (c, .ofResult (fun _ => .done) result)
  | .put id key value => (c.put id key value, .done)
  | .get id key => (c, .value (c.get? id key))
  | .size id => (c, .number (c.sizeOf id))
  | .clearAll id =>
    let (c, result) := c.clearAll id
    (c, .ofResult .number result)
  | .clear name =>
    let (c, result) := c.clear name
    (c, .ofResult .number result)
  | .lookup name => (c, .region (c.lookup? name))
  | .contains name => (c, .flag (c.contains name))
  | .names => (c, .texts c.names)

/-- The cache behind some operations. -/
def after (c : Cache) (ops : List Operation) : Cache :=
  ops.foldl (fun c op => (c.perform op).1) c

/-- An operation is addressed to a region: through a handle, or by the name under which the region
is registered. -/
def addresses (c : Cache) (id : RegionId) : Operation → Bool
  | .register i | .put i _ _ | .get i _ | .size i | .clearAll i => i == id
  | .clear name | .lookup name | .contains name => c.lookup? name == some id
  | .names => false

/-- The operations that are addressed to a region, each with its answer. -/
def observed (id : RegionId) : Cache → List Operation → List (Operation × Response)
  | _, [] => []
  | c, op :: ops =>
    let rest := observed id (c.perform op).1 ops
    if c.addresses id op then (op, (c.perform op).2) :: rest else rest

/-- The operations without those on the entries of other regions. -/
def purged (id : RegionId) : Cache → List Operation → List Operation
  | _, [] => []
  | c, op :: ops =>
    let rest := purged id (c.perform op).1 ops
    if op.isOnEntries && !c.addresses id op then rest else op :: rest

end Cache

end CacheWarden
