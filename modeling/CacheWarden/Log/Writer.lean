import CacheWarden.Json.Writer
import CacheWarden.Keyed
import CacheWarden.Log
/-!
The two forms that records are written in: one line for readers, and a JSON object
for programs.
-/

namespace CacheWarden

/-- A record as one line: its level and message, then its fields in order. -/
def Record.line (r : Record) : String :=
  let shown (f : String × Shown) : String :=
    match f.2 with
    | .text s => ", " ++ f.1 ++ ": " ++ Text.quoted s
    | .plain s => ", " ++ f.1 ++ ": " ++ s
  r.level.name ++ " " ++ r.message ++ String.join (r.fields.map shown)

/-- A record as a JSON object, with its fields as texts. -/
def Record.value (r : Record) : Json.Value :=
  let fields := r.fields.map fun f => (f.1, Json.Value.string f.2.value)
  .object (Keyed.ofList [("level", .string r.level.name), ("message", .string r.message),
    ("fields", .object (Keyed.ofList fields))])

end CacheWarden
