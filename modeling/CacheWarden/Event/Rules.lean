import CacheWarden.Event.Ingest
/-!
Handlers that go by the type of an event: the first rule for its type decides,
and a default where there is none.
-/

namespace CacheWarden

/-- What is done with an event. -/
inductive Action where
  | accept
  /-- Fails on the payload that was handed over. -/
  | fail (message : String)
  /-- Fails without a payload. -/
  | failBare (message : String)
  /-- Fails on another document, or on none. -/
  | failOther (message : String) (document : Option Document)
  /-- Tells that the event is no object. -/
  | notAnObject
  /-- Takes bytes for a document. -/
  | parse (bytes : List UInt8)

/-- What is done with events of a type. -/
structure Rule where
  type : String
  action : Action

/-- Does it. -/
def Action.run (a : Action) : Handler := fun p =>
  match a with
  | .accept => .ok ()
  | .fail message => .error (.failure ⟨message, some p⟩)
  | .failBare message => .error (.failure ⟨message, none⟩)
  | .failOther message document =>
    .error (.failure ⟨message, document.map fun d => ⟨.made 0, d⟩⟩)
  | .notAnObject => .error (.undecodable .notAnObject)
  | .parse bytes =>
    match Document.parse bytes with
    | .ok _ => .ok ()
    | .error e => .error (.undecodable e)

/-- The type that a payload gives, or the empty text. -/
def Payload.type (p : Payload) : String :=
  ((p.document.field? "type").bind Json.Value.string?).getD ""

/-- The handler of some rules. -/
def Rule.handler (rules : List Rule) (default : Action) : Handler := fun p =>
  let action := ((rules.find? (·.type == p.type)).map Rule.action).getD default
  action.run p

end CacheWarden
