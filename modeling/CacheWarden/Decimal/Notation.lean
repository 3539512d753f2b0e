import CacheWarden.Decimal.Shortest
import CacheWarden.Text.Numeral
/-!
How decimals are written: in full, or with a power of ten.
-/

namespace CacheWarden.Decimal

open Text

/-- A decimal in full, without a power of ten. -/
def Scaled.plain (d : Scaled) : List Char :=
  let ds := decimal d.digits
  let places := (-d.exponent).toNat
  if 0 ≤ d.exponent then ds ++ List.replicate d.exponent.toNat '0'
  else if places < ds.length then
    ds.take (ds.length - places) ++ ['.'] ++ ds.drop (ds.length - places)
  else ['0', '.'] ++ List.replicate (places - ds.length) '0' ++ ds

/-- The power of ten of the leading digit. -/
def Scaled.leading (d : Scaled) : Int :=
  ((decimal d.digits).length : Int) - 1 + d.exponent

/-- A decimal as its leading digit, the others behind a point, and a signed power of ten. -/
def Scaled.scientific (d : Scaled) : List Char :=
  let head :=
    match decimal d.digits with
    | [] => []
    | [c] => [c]
    | c :: cs => c :: '.' :: cs
  let power := d.leading
  head ++ ['e', if power < 0 then '-' else '+'] ++ decimal power.natAbs

/-- A text with a point: `.0` is added where there is none. -/
def withPoint (cs : List Char) : List Char :=
  if '.' ∈ cs then cs else cs ++ ['.', '0']

/-- A finite double in full; an integral value has no point. -/
def plainText (bits : UInt64) : List Char :=
  let text := (shortest .up (Binary.ofBits bits)).plain
  if isNegative bits then '-' :: text else text

/-- An integer as the double nearest to it, in full. -/
def plainNearest (i : Int) : List Char :=
  let text := (shortest .up (Binary.ofNat i.natAbs)).plain
  if i < 0 then '-' :: text else text

end CacheWarden.Decimal
