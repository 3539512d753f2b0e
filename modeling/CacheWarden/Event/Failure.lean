import CacheWarden.Event.Document
/-!
Failures on events.  A failure carries the payload it is about as the very object
that was handed over, so payloads have numbers that tell equal ones apart.
-/

namespace CacheWarden

/-- Which payload an object is. -/
inductive PayloadId where
  /-- The one of the call of that number. -/
  | received (number : Nat)
  /-- One that came from elsewhere. -/
  | made (number : Nat)
deriving DecidableEq, Repr

/-- A document as an object. -/
structure Payload where
  id : PayloadId
  document : Document

/-- A failure on an event; the payload may be missing. -/
structure EventFailure where
  message : String
  payload : Option Payload

namespace EventFailure

/-- A value of the payload by its name. -/
def field? (f : EventFailure) (name : String) : Option Json.Value :=
  f.payload.bind fun p => p.document.field? name

/-- A text of the payload by its name. -/
def text? (f : EventFailure) (name : String) : Option String :=
  (f.field? name).bind Json.Value.string?

/-- The event's id. -/
def eventId? (f : EventFailure) : Option String := f.text? "id"

/-- The event's type. -/
def eventType? (f : EventFailure) : Option String := f.text? "type"

end EventFailure

/-- An error on an event. -/
inductive EventError where
  /-- Its processing failed. -/
  | failure (failure : EventFailure)
  /-- Its body is no document. -/
  | undecodable (fault : Document.Fault)

namespace EventError

/-- The error in words. -/
def message : EventError → String
  | .failure f => f.message
  | .undecodable (.malformed e) => "malformed event body: " ++ e.message
  | .undecodable .notAnObject => "event body is not a JSON object"

/-- The failure that an error carries. -/
def failure? : EventError → Option EventFailure
  | .failure f => some f
  | .undecodable _ => none

/-- The error behind an error, in words. -/
def cause? : EventError → Option String
  | .undecodable (.malformed e) => some e.message
  | _ => none

end EventError

end CacheWarden
