import CacheWarden.Keyed
/-!
JSON values.  The fields of an object have distinct names and stand in the order
of the names' bytes, which is also the order of their characters.  A number is an
integer of at most 64 bits, or a finite double given by its bits, so that two
equal values are the same value.
-/

namespace CacheWarden.Json

/-- A number: exact if it is an integer of 64 bits, else a double. -/
inductive Number where
  | int (value : Int)
  | double (bits : UInt64)
deriving DecidableEq, Repr, Inhabited

/-- A JSON value. -/
inductive Value where
  | null
  | bool (value : Bool)
  | number (value : Number)
  | string (value : String)
  | list (items : List Value)
  | object (fields : List (String × Value))
deriving Inhabited

/-- The text of a string value. -/
def Value.string? : Value → Option String
  | .string s => some s
  | _ => none

end CacheWarden.Json
