import CacheWarden.Span.Unit
import CacheWarden.Stop
import CacheWarden.Text.Blank
import CacheWarden.Text.Numeral
/-!
Reading spans such as `1h 30m` or `1.5 days`: one or more numbers, each with a
unit behind it, with blanks between them as one likes, even between the digits
of a number.  The text `0` needs no unit.

Numbers, and their products with the length of a unit, are counted in 64 bits;
one that needs more is refused, like a sum that does not fit a span.  There is one
such sum that is not refused but ends in a crash: the one just above the longest
span, if its last second comes as nanoseconds.
-/

namespace CacheWarden.Span

open Text

/-- A number below the point: `numerator / denominator`. -/
structure Fraction where
  numerator : Nat
  denominator : Nat
deriving DecidableEq, Repr

/-- How far a text is read.  Each state but the first holds the sum of what is complete. -/
inductive Reading where
  | start
  /-- Behind a complete component. -/
  | between (total : Span)
  /-- Inside the whole part of a number. -/
  | whole (total : Span) (n : Nat)
  /-- Inside the fraction of a number. -/
  | fraction (total : Span) (n : Nat) (f : Fraction)
  /-- Inside a unit, whose letters come latest first. -/
  | unit (total : Span) (n : Nat) (f : Option Fraction) (letters : List Char)
deriving DecidableEq, Repr

/-- A letter of a unit's name. -/
def isUnitLetter (c : Char) : Bool := c.isAlpha || c == 'µ'

/-- A step of reading.  Refusals have no words of their own. -/
abbrev Result := Attempt Unit

/-- A number, if it has at most 64 bits. -/
def word (n : Nat) : Result Nat := if n < wordBound then .ok n else .refuse ()

/-- The span of so many nanoseconds, which are taken to fit. -/
def exactly (n : Nat) : Result Span :=
  match ofNanos? n with
  | some s => .ok s
  | none => .error .crash

/-- Adds seconds and nanoseconds.  Nanoseconds go over into seconds if there are more of them than
a second has.  Exactly as many stay where they are, so nobody has asked if there is room for this
second. -/
def plus (total : Span) (seconds nanos : Nat) : Result Span := do
  let n ← word (total.subsecond + nanos)
  let carry := if nanosPerSecond < n then n / nanosPerSecond else 0
  let s ← word (total.seconds + seconds + carry)
  exactly (s * nanosPerSecond + (n - carry * nanosPerSecond))

/-- Adds so many of a unit. -/
def plusWhole (total : Span) (n : Nat) (u : Measure) : Result Span := do
  if u.isShort then total.plus 0 (← word (n * u.nanos))
  else total.plus (← word (n * u.seconds)) 0

/-- Adds a fraction of a unit, cut to nanoseconds below an hour, else to seconds.  There is no
fraction of a nanosecond. -/
def plusFraction (total : Span) (f : Fraction) (u : Measure) : Result Span := do
  if u = .nanosecond then .refuse ()
  else if u.isShort || u = .second || u = .minute then
    total.plus 0 ((← word (f.numerator * u.nanos)) / f.denominator)
  else total.plus ((← word (f.numerator * u.seconds)) / f.denominator) 0

/-- Adds a complete component. -/
def plusComponent (total : Span) (n : Nat) (f : Option Fraction) (letters : List Char) :
    Result Span := do
  let u ← .ofOption () (Measure.named? (String.ofList letters.reverse))
  let total ← total.plusWhole n u
  match f with
  | none => return total
  | some f => total.plusFraction f u

/-- Reads one character. -/
def Reading.step (r : Reading) (c : Char) : Result Reading :=
  match r with
  | .start =>
    if isDigit c then .ok (.whole zero (digitValue c))
    else if isBlank c then .ok .start
    else .refuse ()
  | .between total =>
    if isDigit c then .ok (.whole total (digitValue c))
    else if isBlank c then .ok (.between total)
    else .refuse ()
  | .whole total n =>
    if isDigit c then .whole total <$> word (n * 10 + digitValue c)
    else if isBlank c then .ok (.whole total n)
    else if isUnitLetter c then .ok (.unit total n none [c])
    else if c = '.' then .ok (.fraction total n ⟨0, 1⟩)
    else .refuse ()
  | .fraction total n f =>
    if isDigit c then do
      let denominator ← word (f.denominator * 10)
      let numerator ← word (f.numerator * 10 + digitValue c)
      return .fraction total n ⟨numerator, denominator⟩
    else if isBlank c then .ok (.fraction total n f)
    else if isUnitLetter c ∧ f.denominator ≠ 1 then .ok (.unit total n (some f) [c])
    else .refuse ()
  | .unit total n f letters =>
    if isUnitLetter c then .ok (.unit total n f (c :: letters))
    else if isBlank c then .between <$> total.plusComponent n f letters
    else if isDigit c then
      (fun total => .whole total (digitValue c)) <$> total.plusComponent n f letters
    else .refuse ()

/-- The sum at the end of a text. -/
def Reading.finish : Reading → Result Span
  | .between total => .ok total
  | .unit total n f letters => total.plusComponent n f letters
  | _ => .refuse ()

/-- Reads a text from its start. -/
def readAll (cs : List Char) : Result Span := do
  (← cs.foldlM Reading.step .start).finish

/-- The span that a text denotes. -/
def parse (text : String) : Result Span :=
  if text = "0" then .ok zero else readAll text.toList

end CacheWarden.Span
