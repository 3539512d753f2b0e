import CacheWarden.Event.DeadLetter
import CacheWarden.Log
import CacheWarden.Meter
/-!
The boundary where events come in.  A body that is no document is rejected; any
other goes to the handler, once.  An event that the handler fails on goes to the
dead letters; if they refuse it, the failure goes back to the caller, so that no
event is lost.
-/

namespace CacheWarden

/-- What became of an event. -/
inductive Outcome where
  | processed
  | deadLettered
deriving DecidableEq, Repr

/-- The routine that events go to. -/
abbrev Handler := Payload → Except EventError Unit

/-- A boundary: its handler, and which pushes to the dead letters are refused, counted from 1,
and why. -/
structure Ingestor where
  handler : Handler
  refusal? : Nat → Option String

/-- What has come of the events so far. -/
structure Intake where
  /-- The payloads that the handler got, earliest first. -/
  seen : List Payload
  /-- The dead letters, earliest first. -/
  queue : List DeadLetter
  /-- How many pushes to the dead letters were tried. -/
  pushes : Nat
  meter : Meter

namespace Intake

/-- Nothing yet. -/
def start : Intake := ⟨[], [], 0, .empty⟩

end Intake

/-- What a call gives: the state behind it, its result, and what it tells. -/
abbrev Intake.Step := Intake × Except EventError Outcome × List Notice

namespace Ingestor

/-- A dash in place of a text that is missing. -/
def orDash (s : Option String) : String := s.getD "-"

/-- What is told about a failure before its event goes to the dead letters. -/
def failureNotices (f : EventFailure) : List Notice :=
  .eventFailed (orDash f.eventId?) (orDash f.eventType?) f.message ::
    (f.payload.map fun p => Notice.failedPayload p.document.text).toList

/-- Sends a failed event to the dead letters. -/
def deadLetter (i : Ingestor) (now : Int) (f : EventFailure) (s : Intake) : Intake.Step :=
  let push := s.pushes + 1
  let id := orDash f.eventId?
  match i.refusal? push with
  | some reason =>
    ({ s with pushes := push }, .error (.failure f),
      failureNotices f ++ [.deadLetterFailed id reason])
  | none =>
    ({ s with
        pushes := push
        queue := s.queue ++ [.ofFailure f now]
        meter := s.meter.addDeadLettered 1 },
      .ok .deadLettered, failureNotices f ++ [.deadLettered id])

/-- Hands a payload to the handler. -/
def deliver (i : Ingestor) (now : Int) (payload : Payload) (s : Intake) : Intake.Step :=
  let s := { s with seen := s.seen ++ [payload] }
  match i.handler payload with
  | .ok () => (s, .ok .processed, [])
  | .error (.failure f) => i.deadLetter now f s
  | .error e => (s, .error e, [])

/-- Processes a document.  It becomes a payload of its own, numbered by the calls of the
handler. -/
def process (i : Ingestor) (now : Int) (d : Document) (s : Intake) : Intake.Step :=
  i.deliver now ⟨.received s.seen.length, d⟩ s

/-- Decodes and processes a body. -/
def ingest (i : Ingestor) (now : Int) (body : List UInt8) (s : Intake) : Intake.Step :=
  match Document.parse body with
  | .ok d => i.process now d s
  | .error fault =>
    let e : EventError := .undecodable fault
    ({ s with meter := s.meter.addMalformed 1 }, .error e, [.bodyRejected e.message])

end Ingestor

end CacheWarden
