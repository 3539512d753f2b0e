/-!
Numerals: natural numbers written in a base without leading zeros, and read back.
-/

namespace CacheWarden.Text

/-- The digit for a value below 16, in lower case. -/
def digitChar (d : Nat) : Char :=
  if d < 10 then Char.ofNat (48 + d) else Char.ofNat (87 + d)

/-- The digits of a number in a base, most significant first, in front of what is already there. -/
def digitsOnto (base : Nat) : Nat → Nat → List Char → List Char
  | 0, _, tail => tail
  | fuel + 1, n, tail =>
    if n < base then digitChar n :: tail
    else digitsOnto base fuel (n / base) (digitChar (n % base) :: tail)

/-- A number in decimal. -/
def decimal (n : Nat) : List Char :=
  digitsOnto 10 (n + 1) n []

/-- A number in decimal, as a text. -/
def ordinal (n : Nat) : String :=
  String.ofList (decimal n)

/-- A number in hexadecimal. -/
def hex (n : Nat) : List Char :=
  digitsOnto 16 (n + 1) n []

/-- An integer in decimal, with a sign only if it is negative. -/
def signedDecimal : Int → List Char
  | .ofNat n => decimal n
  | .negSucc n => '-' :: decimal (n + 1)

/-- The value of a digit in a base of at most 16, letters in either case. -/
def digitValue? (base : Nat) (c : Char) : Option Nat :=
  let n := c.toNat
  let v :=
    if 48 ≤ n ∧ n ≤ 57 then n - 48
    else if 97 ≤ n ∧ n ≤ 102 then n - 87
    else if 65 ≤ n ∧ n ≤ 70 then n - 55
    else base
  if v < base then some v else none

/-- A decimal digit. -/
def isDigit (c : Char) : Bool :=
  48 ≤ c.toNat && c.toNat ≤ 57

/-- The value of a decimal digit. -/
def digitValue (c : Char) : Nat :=
  c.toNat - 48

/-- The number that a non-empty run of digits denotes; `none` if a character is no digit. -/
def numeral? (base : Nat) : List Char → Option Nat
  | [] => none
  | cs => cs.foldlM (fun n c => (digitValue? base c).map (n * base + ·)) 0

/-- A number padded with zeros on the left to a width. -/
def padded (width n : Nat) : List Char :=
  let ds := decimal n
  List.replicate (width - ds.length) '0' ++ ds

end CacheWarden.Text
