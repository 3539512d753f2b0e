import CacheWarden.Span
import CacheWarden.Text.Numeral
/-!
Writing spans: in the units that people use, largest first, or as one number
with a point.
-/

namespace CacheWarden.Span

open Text

/-! ### In units -/

/-- A count with the name of its unit; nothing for zero. -/
def item (name : String) (n : Nat) : List String :=
  if n = 0 then [] else [ordinal n ++ name]

/-- A count with the name of its unit, in the plural above one. -/
def pluralItem (name : String) (n : Nat) : List String :=
  item (if 1 < n then name ++ "s" else name) n

/-- The parts of a span, largest first, without those that are zero. -/
def items (s : Span) : List String :=
  let secs := s.seconds
  let inYear := secs % 31557600
  let inMonth := inYear % 2630016
  let inDay := inMonth % 86400
  pluralItem "year" (secs / 31557600) ++ pluralItem "month" (inYear / 2630016) ++
    pluralItem "day" (inMonth / 86400) ++ item "h" (inDay / 3600) ++
    item "m" (inDay % 3600 / 60) ++ item "s" (inDay % 60) ++
    item "ms" (s.subsecond / 1000000) ++ item "us" (s.subsecond / 1000 % 1000) ++
    item "ns" (s.subsecond % 1000)

/-- A span in units, such as `1h 2m 3s`. -/
def text (s : Span) : String :=
  if s.isZero then "0s" else " ".intercalate s.items

/-! ### As one number -/

/-- Digits behind a point, without zeros at the end; no point if there is none left. -/
def pointed (width n : Nat) : List Char :=
  let ds := ((padded width n).reverse.dropWhile (· == '0')).reverse
  if ds.isEmpty then [] else '.' :: ds

/-- A span as a number of the largest of s, ms, µs and ns that it reaches, such as `1.5s`. -/
def short (s : Span) : String :=
  let n := s.subsecond
  String.ofList <|
    if 0 < s.seconds then decimal s.seconds ++ pointed 9 n ++ ['s']
    else if 1000000 ≤ n then decimal (n / 1000000) ++ pointed 6 (n % 1000000) ++ ['m', 's']
    else if 1000 ≤ n then decimal (n / 1000) ++ pointed 3 (n % 1000) ++ ['µ', 's']
    else decimal n ++ ['n', 's']

/-- A span in seconds with nine places. -/
def fixed (s : Span) : String :=
  String.ofList (decimal s.seconds ++ '.' :: padded 9 s.subsecond)

end CacheWarden.Span
