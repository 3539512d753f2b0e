import CacheWarden.Address
import CacheWarden.Text.Numeral
/-!
Writing addresses.  The first of the longest runs of zero groups is left out if
it has more than one, and a long address that stands for a short one shows it.
-/

namespace CacheWarden.Address

open Text

/-- Texts with a separator between them. -/
def joined (separator : Char) : List (List Char) → List Char
  | [] => []
  | [t] => t
  | t :: ts => t ++ separator :: joined separator ts

/-- Four bytes. -/
def v4Text (a b c d : UInt8) : List Char :=
  joined '.' ([a, b, c, d].map fun x => decimal x.toNat)

/-- Some groups. -/
def groupsText (gs : List UInt16) : List Char :=
  joined ':' (gs.map fun g => hex g.toNat)

/-- How many zeros come first. -/
def leadingZeros (gs : List UInt16) : Nat :=
  (gs.takeWhile (· == 0)).length

/-- Where the first of the longest runs of zeros starts, and its length. -/
def longestZeros : List UInt16 → Nat × Nat
  | [] => (0, 0)
  | g :: gs =>
    let (start, length) := longestZeros gs
    let here := leadingZeros (g :: gs)
    if length ≤ here then (0, here) else (start + 1, length)

/-- The groups of a long address. -/
def v6Text (gs : List UInt16) : List Char :=
  match gs with
  | [0, 0, 0, 0, 0, 0xffff, x, y] =>
    "::ffff:".toList ++
      v4Text (x / 256).toUInt8 (x % 256).toUInt8 (y / 256).toUInt8 (y % 256).toUInt8
  | _ =>
    let (start, length) := longestZeros gs
    if 1 < length then
      groupsText (gs.take start) ++ [':', ':'] ++ groupsText (gs.drop (start + length))
    else groupsText gs

/-- A host as it stands in front of a port. -/
def hostText : Host → List Char
  | .v4 a b c d => v4Text a b c d
  | .v6 groups scope =>
    let link := if scope = 0 then [] else '%' :: decimal scope.toNat
    '[' :: v6Text groups.val ++ link ++ [']']

/-- An address. -/
def text (a : Address) : String :=
  String.ofList (hostText a.host ++ ':' :: decimal a.port.toNat)

end CacheWarden.Address
