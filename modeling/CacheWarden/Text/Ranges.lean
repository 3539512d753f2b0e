/-!
Sets of characters given as closed ranges of code points.
-/

namespace CacheWarden.Text

/-- Closed ranges of code points, in ascending order. -/
abbrev Ranges := List (Nat × Nat)

/-- A code point lies in one of the ranges. -/
def Ranges.mem (ranges : Ranges) (n : Nat) : Bool :=
  ranges.any fun r => r.1 ≤ n && n ≤ r.2

end CacheWarden.Text
