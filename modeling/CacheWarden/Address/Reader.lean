import CacheWarden.Address
import CacheWarden.Text.Numeral
/-!
Reading addresses: `a.b.c.d:port`, or `[groups]:port` with up to eight groups of
hexadecimal digits, where `::` stands for zeros and a short address may stand for
the last two groups.
-/

namespace CacheWarden.Address

open Text

/-- The digits in front of a text, and what is behind them. -/
def spanDigits (base : Nat) (cs : List Char) : List Char × List Char :=
  cs.span fun c => (digitValue? base c).isSome

/-- A number below a bound. -/
def readNumber? (base bound : Nat) (cs : List Char) : Option (Nat × List Char) :=
  let (ds, rest) := spanDigits base cs
  match numeral? base ds with
  | some n => if n < bound then some (n, rest) else none
  | none => none

/-- The text behind a character, if it starts with that. -/
def skipChar? (c : Char) : List Char → Option (List Char)
  | [] => none
  | x :: rest => if x = c then some rest else none

/-- A byte of a short address: at most three digits, the first of several not zero. -/
def readByte? (cs : List Char) : Option (UInt8 × List Char) :=
  let ds := (spanDigits 10 cs).1
  if 3 < ds.length ∨ (1 < ds.length ∧ ds.head? = some '0') then none
  else (readNumber? 10 256 cs).map fun r => (r.1.toUInt8, r.2)

/-- The four bytes of a short address. -/
def readV4? (cs : List Char) : Option ((UInt8 × UInt8 × UInt8 × UInt8) × List Char) := do
  let (a, cs) ← readByte? cs
  let (b, cs) ← readByte? (← skipChar? '.' cs)
  let (c, cs) ← readByte? (← skipChar? '.' cs)
  let (d, cs) ← readByte? (← skipChar? '.' cs)
  some ((a, b, c, d), cs)

/-- A group of a long address: at most four digits. -/
def readGroup? (cs : List Char) : Option (UInt16 × List Char) :=
  if 4 < (spanDigits 16 cs).1.length then none
  else (readNumber? 16 65536 cs).map fun r => (r.1.toUInt16, r.2)

/-- Two bytes as a group. -/
def joinBytes (a b : UInt8) : UInt16 := a.toUInt16 * 256 + b.toUInt16

/-- Groups read in a row. -/
structure Run where
  groups : List UInt16
  /-- The last two were a short address. -/
  short : Bool
  rest : List Char

/-- At most so many groups, with colons between them. -/
def readGroups : (limit : Nat) → (first : Bool) → List Char → Run
  | 0, _, cs => ⟨[], false, cs⟩
  | limit + 1, first, cs =>
    let here := if first then some cs else skipChar? ':' cs
    match if 0 < limit then here.bind readV4? else none with
    | some ((a, b, c, d), rest) => ⟨[joinBytes a b, joinBytes c d], true, rest⟩
    | none =>
      match here.bind readGroup? with
      | none => ⟨[], false, cs⟩
      | some (g, rest) =>
        let run := readGroups limit false rest
        { run with groups := g :: run.groups }

/-- The eight groups of a long address.  `::` stands for at least one group of zeros. -/
def readV6? (cs : List Char) : Option (Groups × List Char) :=
  let head := readGroups 8 true cs
  if h : head.groups.length = 8 then some (⟨head.groups, h⟩, head.rest)
  else if head.short then none
  else do
    let tailStart ← (skipChar? ':' head.rest).bind (skipChar? ':')
    let tail := readGroups (7 - head.groups.length) true tailStart
    let zeros := 8 - head.groups.length - tail.groups.length
    let groups := head.groups ++ List.replicate zeros 0 ++ tail.groups
    if h : groups.length = 8 then some (⟨groups, h⟩, tail.rest) else none

/-- A port behind its colon. -/
def readPort? (cs : List Char) : Option (UInt16 × List Char) := do
  let (n, rest) ← readNumber? 10 65536 (← skipChar? ':' cs)
  some (n.toUInt16, rest)

/-- The number of a link, if one is given. -/
def readScope (cs : List Char) : UInt32 × List Char :=
  match (skipChar? '%' cs).bind (readNumber? 10 4294967296) with
  | some (n, rest) => (n.toUInt32, rest)
  | none => (0, cs)

/-- A short address with its port. -/
def readShort? (cs : List Char) : Option Address := do
  let ((a, b, c, d), cs) ← readV4? cs
  let (port, cs) ← readPort? cs
  if cs.isEmpty then some ⟨.v4 a b c d, port⟩ else none

/-- A long address with its port. -/
def readLong? (cs : List Char) : Option Address := do
  let (groups, cs) ← readV6? (← skipChar? '[' cs)
  let (scope, cs) := readScope cs
  let (port, cs) ← readPort? (← skipChar? ']' cs)
  if cs.isEmpty then some ⟨.v6 groups scope, port⟩ else none

/-- The address that a text denotes. -/
def parse? (text : String) : Option Address :=
  (readShort? text.toList).or (readLong? text.toList)

end CacheWarden.Address
