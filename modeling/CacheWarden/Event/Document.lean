import CacheWarden.Json.Reader
import CacheWarden.Json.Writer
/-!
Documents: the bodies of events, with values by name.
-/

namespace CacheWarden

/-- A document: JSON values by name, each name once and in order. -/
abbrev Document := List (String × Json.Value)

namespace Document

/-- Why bytes are no document. -/
inductive Fault where
  /-- They are no JSON text. -/
  | malformed (error : Json.SyntaxError)
  /-- They are a JSON text of another kind. -/
  | notAnObject
deriving DecidableEq, Repr

/-- The document that bytes denote. -/
def parse (bytes : List UInt8) : Except Fault Document :=
  match Json.parse bytes with
  | .error e => .error (.malformed e)
  | .ok (.object fields) => .ok fields
  | .ok _ => .error .notAnObject

/-- A document as JSON text. -/
def text (d : Document) : String := (Json.Value.object d).render

/-- A value by its name. -/
def field? (d : Document) (name : String) : Option Json.Value := Keyed.get? name d

end Document

end CacheWarden
