import CacheWarden.Event.Failure
/-!
Dead letters: events whose processing failed, kept for inspection or to be
submitted again.
-/

namespace CacheWarden

/-- A failed event, and the instant of its failure in milliseconds. -/
structure DeadLetter where
  message : String
  payload : Option Payload
  failedAt : Int

namespace DeadLetter

/-- The entry of a failure. -/
def ofFailure (f : EventFailure) (failedAt : Int) : DeadLetter :=
  ⟨f.message, f.payload, failedAt⟩

open Json in
/-- An entry as JSON text, with its fields in an order of their own. -/
def text (d : DeadLetter) : String :=
  let payload (p : Payload) : List Char := (Value.object p.document).text
  String.ofList (membersText [("message", stringText d.message),
    ("payload", optionText payload d.payload),
    ("failed_at", (Number.int d.failedAt).text)])

end DeadLetter

end CacheWarden
