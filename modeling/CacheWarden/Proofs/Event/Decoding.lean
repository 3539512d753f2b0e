import CacheWarden.Event.Document
import CacheWarden.Proofs.Json.Completeness
/-!
Which bodies are documents.

A body is a document exactly if it is the text of one object: whatever is taken for one
is in the grammar, and whatever is in the grammar, with integers of 64 bits for numbers,
is taken (`decoding`).  Numbers of other kinds are doubles, and some are out of a double's
range, so there the grammar only says what cannot be taken.
-/

namespace CacheWarden

open Json

/-- A value that is no object. -/
def IsOther (v : Value) : Prop := ∀ d, v ≠ .object d

namespace Document

/-- What the decoding of a body says about it, and the body about its decoding. -/
structure Decoded (raw : List UInt8) : Prop where
  /-- A document was the text of an object. -/
  object : ∀ d, parse raw = .ok d → IsText AnyLiteral 127 raw (.object d)
  /-- What is told to be no object was the text of another value. -/
  other : parse raw = .error .notAnObject → ∃ v, IsText AnyLiteral 127 raw v ∧ IsOther v
  /-- All else is malformed. -/
  malformed : (∀ d, parse raw ≠ .ok d) → parse raw ≠ .error .notAnObject →
    ∃ e, parse raw = .error (.malformed e)
  /-- What is no text at all is malformed. -/
  noText : (∀ v, ¬IsText AnyLiteral 127 raw v) → ∃ e, parse raw = .error (.malformed e)
  /-- The text of an object whose numbers are integers of 64 bits is the document it denotes. -/
  denoted : ∀ d, IsText ExactLiteral 127 raw (.object d) → parse raw = .ok d
  /-- The text of another value with such numbers is told to be no object. -/
  refused : ∀ v, IsText ExactLiteral 127 raw v → IsOther v →
    parse raw = .error .notAnObject

/-! ### From values to documents -/

theorem parse_of_error {raw : List UInt8} {e : SyntaxError} (h : Json.parse raw = .error e) :
    parse raw = .error (.malformed e) := by
  unfold parse
  rw [h]

theorem parse_of_object {raw : List UInt8} {d : Document} (h : Json.parse raw = .ok (.object d)) :
    parse raw = .ok d := by
  unfold parse
  rw [h]

theorem parse_of_other {raw : List UInt8} {v : Value} (h : Json.parse raw = .ok v)
    (hv : IsOther v) : parse raw = .error .notAnObject := by
  unfold parse
  rw [h]
  cases v with
  | object d => exact absurd rfl (hv d)
  | _ => rfl

/-- A body is malformed, an object or another value. -/
theorem cases_parse (raw : List UInt8) :
    (∃ e, parse raw = .error (.malformed e)) ∨
      (∃ d, Json.parse raw = .ok (.object d) ∧ parse raw = .ok d) ∨
        ∃ v, Json.parse raw = .ok v ∧ IsOther v ∧ parse raw = .error .notAnObject := by
  rcases h : Json.parse raw with e | v
  · exact .inl ⟨e, parse_of_error h⟩
  · by_cases hv : IsOther v
    · exact .inr (.inr ⟨v, rfl, hv, parse_of_other h hv⟩)
    · obtain ⟨d, hd⟩ := not_forall_not.mp hv
      subst hd
      exact .inr (.inl ⟨d, rfl, parse_of_object h⟩)

/-- **Documents are the objects of the grammar.**  Whatever bytes come in, a document is the text of
an object with white space around it, what is no object is the text of another value, and all else
is malformed; the other way round, every text of an object whose numbers are integers of 64 bits is
taken for the document that it denotes. -/
theorem decoding (raw : List UInt8) : Decoded raw := by
  constructor
  case object =>
    intro d h
    rcases cases_parse raw with ⟨e, he⟩ | ⟨d', hd', hp⟩ | ⟨v, -, -, hp⟩
    · rw [he] at h
      cases h
    · rw [hp] at h
      cases h
      exact isText_of_parse hd'
    · rw [hp] at h
      cases h
  case other =>
    intro h
    rcases cases_parse raw with ⟨e, he⟩ | ⟨d', -, hp⟩ | ⟨v, hv, hother, -⟩
    · rw [he] at h
      cases h
    · rw [hp] at h
      cases h
    · exact ⟨v, isText_of_parse hv, hother⟩
  case malformed =>
    intro hok hother
    rcases cases_parse raw with he | ⟨d', -, hp⟩ | ⟨v, -, -, hp⟩
    · exact he
    · exact absurd hp (hok d')
    · exact absurd hp hother
  case noText =>
    intro hno
    rcases cases_parse raw with he | ⟨d', hd', -⟩ | ⟨v, hv, -, -⟩
    · exact he
    · exact absurd (isText_of_parse hd') (hno _)
    · exact absurd (isText_of_parse hv) (hno v)
  case denoted =>
    intro d h
    exact parse_of_object (parse_of_isText h)
  case refused =>
    intro v h hv
    exact parse_of_other (parse_of_isText h) hv

end Document

end CacheWarden
