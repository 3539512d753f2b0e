/-!
The shortest decimal that reads back.  A finite double stands for an interval of
reals, those that round to it; of the decimals in that interval we take one with
the fewest digits, and of those the nearest.  All comparisons are exact, on
natural numbers.
-/

namespace CacheWarden.Decimal

/-- A finite double without its sign: `mantissa * 2 ^ exponent`. -/
structure Binary where
  mantissa : Nat
  exponent : Int
  /-- The gap below is half the gap above: just above a power of two. -/
  tight : Bool

/-- A decimal: `digits * 10 ^ exponent`. -/
structure Scaled where
  digits : Nat
  exponent : Int

/-- Which of two equally near decimals is taken. -/
inductive Tie where
  | toEven
  | up

/-- The sign bit of a double. -/
def isNegative (bits : UInt64) : Bool :=
  bits >>> 63 != 0

/-- The bits of a double that is neither an infinity nor a NaN. -/
def isFinite (bits : UInt64) : Bool :=
  (bits >>> 52) &&& 0x7FF != 0x7FF

/-- The value of a finite double, without its sign. -/
def Binary.ofBits (bits : UInt64) : Binary :=
  let e := ((bits >>> 52) &&& 0x7FF).toNat
  let f := (bits &&& 0xFFFFFFFFFFFFF).toNat
  if e = 0 then ⟨f, -1074, false⟩
  else ⟨Nat.pow 2 52 + f, (e : Int) - 1075, f == 0 && e > 1⟩

/-- A number in units, to the nearest; of two that are as near, the even one. -/
def roundDiv (n unit : Nat) : Nat :=
  let q := n / unit
  let r := n % unit
  if 2 * r < unit ∨ (2 * r = unit ∧ q % 2 = 0) then q else q + 1

/-- The double with a mantissa of 53 bits; a mantissa that rounding has filled goes over
into the exponent. -/
def Binary.ofMantissa (m : Nat) (e : Int) : Binary :=
  if m = Nat.pow 2 53 then ⟨Nat.pow 2 52, e + 1, true⟩ else ⟨m, e, m == Nat.pow 2 52⟩

/-- The double nearest to a natural number, ties to an even mantissa.  Numbers up
to `2 ^ 1000` stay in range. -/
def Binary.ofNat (n : Nat) : Binary :=
  if n = 0 then ⟨0, -1074, false⟩
  else
    let e : Int := n.log2 - 52
    .ofMantissa (roundDiv (n * Nat.pow 2 (-e).toNat) (Nat.pow 2 e.toNat)) e

/-- Compares `a * 10 ^ i` with `b * 2 ^ j`. -/
def compareScaled (a : Nat) (i : Int) (b : Nat) (j : Int) : Ordering :=
  compare (a * Nat.pow 10 i.toNat * Nat.pow 2 (-j).toNat)
    (b * Nat.pow 2 j.toNat * Nat.pow 10 (-i).toNat)

/-- A decimal lies among the reals that round to a value: between the midpoints to
its neighbours, which belong to it if its mantissa is even. -/
def Binary.readsBack (x : Binary) (d : Scaled) : Bool :=
  let low := if x.tight then 4 * x.mantissa - 1 else 4 * x.mantissa - 2
  let high := 4 * x.mantissa + 2
  let ends := x.mantissa % 2 == 0
  let below := compareScaled d.digits d.exponent low (x.exponent - 2)
  let above := compareScaled d.digits d.exponent high (x.exponent - 2)
  (below == .gt || (ends && below == .eq)) && (above == .lt || (ends && above == .eq))

/-- The least power of ten above a value, found from an estimate by its binary
logarithm that is off by little. -/
def Binary.magnitude (x : Binary) : Int :=
  let guess := ((x.mantissa.log2 : Int) + x.exponent) * 30103 / 100000
  let fits (k : Int) : Bool := compareScaled 1 k x.mantissa x.exponent == .gt
  (((List.range 6).map fun (i : Nat) => guess - 2 + (i : Int)).find? fits).getD (guess + 4)

/-- The value divided by a power of ten, rounded down. -/
def Binary.floorAt (x : Binary) (e : Int) : Nat :=
  x.mantissa * Nat.pow 2 x.exponent.toNat * Nat.pow 10 (-e).toNat /
    (Nat.pow 2 (-x.exponent).toNat * Nat.pow 10 e.toNat)

/-- The decimal on one grid that reads back, if there is one: of the value's two
neighbours the nearer. -/
def Binary.onGrid? (tie : Tie) (x : Binary) (e : Int) : Option Scaled :=
  let n := x.floorAt e
  let low : Scaled := ⟨n, e⟩
  let high : Scaled := ⟨n + 1, e⟩
  match x.readsBack low, x.readsBack high with
  | false, false => none
  | true, false => some low
  | false, true => some high
  | true, true =>
    match compareScaled (2 * n + 1) e (2 * x.mantissa) x.exponent with
    | .gt => some low
    | .lt => some high
    | .eq =>
      match tie with
      | .up => some high
      | .toEven => if n % 2 = 0 then some low else some high

/-- Moves trailing zeros of the digits into the exponent. -/
def Scaled.strip : Nat → Scaled → Scaled
  | 0, d => d
  | fuel + 1, d =>
    if d.digits ≠ 0 ∧ d.digits % 10 = 0 then strip fuel ⟨d.digits / 10, d.exponent + 1⟩ else d

/-- The exact value, as a decimal. -/
def Binary.exact (x : Binary) : Scaled :=
  if x.exponent < 0 then ⟨x.mantissa * Nat.pow 5 (-x.exponent).toNat, x.exponent⟩
  else ⟨x.mantissa * Nat.pow 2 x.exponent.toNat, 0⟩

/-- The shortest decimal that reads back to a value.  Seventeen digits are enough
for every double; past them the exact value is taken. -/
def shortest (tie : Tie) (x : Binary) : Scaled :=
  if x.mantissa = 0 then ⟨0, 0⟩
  else
    let k := x.magnitude
    let grids := (List.range 17).map fun (n : Nat) => k - 1 - (n : Int)
    ((grids.findSome? (x.onGrid? tie)).getD x.exact).strip 400

end CacheWarden.Decimal
