import CacheWarden.CommandLine
import CacheWarden.Text.Likeness
/-!
Reading a command line, argument by argument.

The value of an option is looked at only when the next option is met, or the end:
so an argument that does not exist is told of first, and a value that is missing
before anything that a later option asks for.
-/

namespace CacheWarden.CommandLine

/-- An option whose value is not looked at yet. -/
inductive Pending where
  | nothing
  /-- The option stands without its value. -/
  | awaiting
  | value (v : String)
deriving DecidableEq, Repr

/-- What was read so far. -/
structure Reading where
  /-- The options that were taken in. -/
  used : List Flag
  path : Option String
  pending : Pending
deriving DecidableEq, Repr

namespace Reading

/-- Nothing read yet. -/
def start : Reading := ⟨[], none, .nothing⟩

/-- Takes in the value that is pending.  An option that was taken in before is given up with the
one that repeats it. -/
def resolve (r : Reading) : Reading × Option Misuse :=
  let r' := { r with pending := .nothing }
  match r.pending with
  | .nothing => (r', none)
  | .awaiting => (r', some .missingValue)
  | .value v =>
    if r.used.contains .cfg then ({ r' with used := [] }, some .repeated)
    else if v.isEmpty then ({ r' with used := [.cfg] }, some .missingValue)
    else ({ r' with used := [.cfg], path := some v }, none)

/-- Takes in the value that is pending, or fails. -/
def resolved (r : Reading) : Except Misuse Reading :=
  match r.resolve with
  | (r, none) => .ok r
  | (_, some e) => .error e

end Reading

/-- The option that a name may be meant for: the one most like it, the later of two, and none if
it is not much like it. -/
def tip? (name : String) : Option Flag :=
  let close := (Flag.all.map fun f => (Text.likeness name f.long, f)).filter (0.7 < ·.1)
  let better (best : Option (Float × Flag)) (f : Float × Flag) : Option (Float × Flag) :=
    match best with
    | some b => if f.1 < b.1 then some b else some f
    | none => some f
  (close.foldl better none).map (·.2)

/-- What an option asks for that ends the reading. -/
def Flag.request? : Flag → Option Request
  | .cfg => none
  | .help => some .help
  | .version => some .version

/-- A name, and the value behind its first equals sign. -/
def splitValue (cs : List Char) : String × Option String :=
  let name := cs.takeWhile (· != '=')
  match cs.dropWhile (· != '=') with
  | [] => (String.ofList name, none)
  | _ :: value => (String.ofList name, some (String.ofList value))

/-- The value that stands behind a short name. -/
def attached : List Char → Option String
  | [] => none
  | '=' :: value => some (String.ofList value)
  | value => some (String.ofList value)

/-- Takes in the settings' file, with the value that stands at the option if there is one. -/
def Reading.cfg (r : Reading) (value : Option String) : Except Misuse Reading := do
  let r ← r.resolved
  match value with
  | some v => Reading.resolved { r with pending := .value v }
  | none => pure { r with pending := .awaiting }

/-- Reads the arguments that are left. -/
def readFrom : List String → Reading → Except Misuse Request
  | [], r => do
    let r ← r.resolved
    pure (.run r.path)
  | arg :: rest, r =>
    match arg.toList with
    | ['-', '-'] =>
      match rest with
      | [] => do
        let r ← r.resolved
        pure (.run r.path)
      | next :: _ => .error (.unknown next none [])
    | '-' :: '-' :: cs =>
      let (name, value) := splitValue cs
      match Flag.ofLong? name with
      | none => .error (.unknown ("--" ++ name) (tip? name) r.resolve.1.used)
      | some f =>
        match f.request?, value with
        | some _, some v => .error (.unexpectedValue v f r.used)
        | some request, none => r.resolved.map fun _ => request
        | none, value => do
          let r ← r.cfg value
          readFrom rest r
    | '-' :: c :: cs =>
      match Flag.ofShort? c with
      | none => .error (.unknown (String.ofList ['-', c]) none [])
      | some f =>
        match f.request? with
        | some request => r.resolved.map fun _ => request
        | none => do
          let r ← r.cfg (attached cs)
          readFrom rest r
    | _ =>
      match r.pending with
      | .awaiting => readFrom rest { r with pending := .value arg }
      | .nothing | .value _ => .error (.unknown arg none [])

/-- What a command line asks for. -/
def read (args : List String) : Except Misuse Request := readFrom args .start

end CacheWarden.CommandLine
