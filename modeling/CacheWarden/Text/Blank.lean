import CacheWarden.Text.Ranges
/-!
Blank characters: the White_Space property, 25 code points.  Delay texts may be
spaced with any of them.
-/

namespace CacheWarden.Text

/-- The code points of the White_Space property. -/
def blankRanges : Ranges :=
  [(0x09, 0x0D), (0x20, 0x20), (0x85, 0x85), (0xA0, 0xA0), (0x1680, 0x1680), (0x2000, 0x200A),
   (0x2028, 0x2029), (0x202F, 0x202F), (0x205F, 0x205F), (0x3000, 0x3000)]

/-- A character of the White_Space property. -/
def isBlank (c : Char) : Bool :=
  blankRanges.mem c.toNat

end CacheWarden.Text
