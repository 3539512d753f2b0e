/-!
Spans of time: whole nanoseconds, with room for 64 bits of seconds.
-/

namespace CacheWarden

/-- The nanoseconds of a second. -/
def nanosPerSecond : Nat := 1000000000

/-- The nanoseconds of a millisecond. -/
def nanosPerMilli : Nat := 1000000

/-- A bound above every number of 64 bits. -/
def wordBound : Nat := 18446744073709551616

/-- A span of time. -/
structure Span where
  nanos : Nat
  fits : nanos < wordBound * nanosPerSecond
deriving DecidableEq, Repr

namespace Span

/-- The span of so many nanoseconds, if it fits. -/
def ofNanos? (n : Nat) : Option Span :=
  if h : n < wordBound * nanosPerSecond then some ⟨n, h⟩ else none

/-- No time. -/
def zero : Span := ⟨0, by decide⟩

instance : Inhabited Span := ⟨zero⟩

/-- The span of a small number of seconds. -/
def ofSeconds (n : Nat) (h : n < wordBound := by decide) : Span :=
  ⟨n * nanosPerSecond, Nat.mul_lt_mul_of_pos_right h (by decide)⟩

/-- The whole seconds of a span. -/
def seconds (s : Span) : Nat := s.nanos / nanosPerSecond

/-- The nanoseconds of a span beyond its whole seconds. -/
def subsecond (s : Span) : Nat := s.nanos % nanosPerSecond

/-- The milliseconds of a span; a broken one counts as a whole. -/
def millisUp (s : Span) : Nat := (s.nanos + (nanosPerMilli - 1)) / nanosPerMilli

/-- No time. -/
def isZero (s : Span) : Bool := s.nanos == 0

@[simp] theorem nanos_zero : zero.nanos = 0 := rfl

theorem ofNanos?_nanos (s : Span) : ofNanos? s.nanos = some s := by
  simp [ofNanos?, s.fits]

theorem ofNanos?_eq_none {n : Nat} (h : wordBound * nanosPerSecond ≤ n) : ofNanos? n = none := by
  simp [ofNanos?, Nat.not_lt.mpr h]

theorem nanos_of_ofNanos? {n : Nat} {s : Span} (h : ofNanos? n = some s) : s.nanos = n := by
  unfold ofNanos? at h
  split at h
  · cases h; rfl
  · cases h

end Span

end CacheWarden
