/-!
How a computation stops before it has a value.

A refusal is for the caller, who is told the cause and may go another way.  A crash is
for nobody: whoever called, and whatever they would do about a refusal, it ends them all.
-/

namespace CacheWarden

/-- Why there is no value. -/
inductive Stop (ε : Type) where
  | refusal (cause : ε)
  | crash
deriving DecidableEq, Repr

/-- The same stop with another cause, if it has one. -/
@[simp] def Stop.map {ε ε' : Type} (f : ε → ε') : Stop ε → Stop ε'
  | .refusal cause => .refusal (f cause)
  | .crash => .crash

/-- A computation that may stop, with causes of some type. -/
abbrev Attempt (ε : Type) := Except (Stop ε)

/-- Refuses to go on. -/
def Attempt.refuse {ε α : Type} (cause : ε) : Attempt ε α := .error (.refusal cause)

/-- A value that may be missing; if it is, there is a cause for a refusal. -/
def Attempt.ofOption {ε α : Type} (cause : ε) : Option α → Attempt ε α
  | some a => .ok a
  | none => .refuse cause

/-- A step that gives a result had one before it. -/
theorem exists_of_bind_ok {ε α β : Type} {x : Except ε α} {f : α → Except ε β} {b : β}
    (h : (x >>= f) = .ok b) : ∃ a, x = .ok a ∧ f a = .ok b := by
  cases x with
  | error e => cases h
  | ok a => exact ⟨a, rfl, h⟩

/-- A computation that crashes does so in its first step, or in what comes behind it. -/
theorem cases_of_bind_crash {ε α β : Type} {x : Attempt ε α} {f : α → Attempt ε β}
    (h : (x >>= f) = .error .crash) : x = .error .crash ∨ ∃ a, x = .ok a ∧ f a = .error .crash := by
  cases x with
  | error stop =>
    cases h
    exact .inl rfl
  | ok a => exact .inr ⟨a, rfl, h⟩

end CacheWarden
