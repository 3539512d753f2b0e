import CacheWarden.Text.Quoted
/-!
What may go wrong with a region.
-/

namespace CacheWarden

/-- An error about a region. -/
inductive CacheError where
  /-- No region of that name is registered. -/
  | unknownRegion (region : String)
  /-- A region of that name is registered already. -/
  | duplicateRegion (region : String)
  /-- The region cannot be reached. -/
  | unavailable (region reason : String)
deriving DecidableEq, Repr

/-- The region that an error is about. -/
def CacheError.region : CacheError → String
  | .unknownRegion r => r
  | .duplicateRegion r => r
  | .unavailable r _ => r

/-- The error in words. -/
def CacheError.message : CacheError → String
  | .unknownRegion r => "cache region " ++ Text.quoted r ++ " is not registered"
  | .duplicateRegion r => "cache region " ++ Text.quoted r ++ " is already registered"
  | .unavailable r reason =>
    "cache store is unavailable for region " ++ Text.quoted r ++ ": " ++ reason

end CacheWarden
