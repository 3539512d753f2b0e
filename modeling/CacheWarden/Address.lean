/-!
Addresses to listen on: a host, given by the number of its interface, and a port.
-/

namespace CacheWarden

/-- The eight groups of a long host address. -/
abbrev Groups := { gs : List UInt16 // gs.length = 8 }

/-- A host. -/
inductive Host where
  /-- Four bytes. -/
  | v4 (a b c d : UInt8)
  /-- Eight groups, and the number of the link they are local to; zero if they are not. -/
  | v6 (groups : Groups) (scope : UInt32)
deriving DecidableEq, Repr

/-- A host and a port. -/
structure Address where
  host : Host
  port : UInt16
deriving DecidableEq, Repr

instance : Inhabited Address := ⟨⟨.v4 0 0 0 0, 0⟩⟩

end CacheWarden
