import CacheWarden.Address.Reader
import CacheWarden.Settings
import CacheWarden.Settings.Misfit
import CacheWarden.Span.Reader
/-!
Settings from a YAML document.  The fields of a mapping are read in their order;
unknown ones are skipped whatever they hold, known ones may come once.  A null
or empty value of an optional field counts as absent.
-/

namespace CacheWarden

open Yaml (Node Plain)

namespace Decode

/-- A step of reading. -/
abbrev Result := Attempt Misfit

/-- A complaint at a place. -/
def complain {α : Type} (complaint : Complaint) (site : Site) : Result α :=
  .refuse ⟨complaint, site⟩

/-! ### Nodes -/

/-- The node that a node stands for: itself unless it is an alias. -/
def follow (d : Yaml.Document) : Node → Node
  | .alias mark target => (d.target? target).getD (Yaml.emptyNode mark)
  | node => node

/-- Where a node starts. -/
def markOf : Node → Yaml.Mark
  | .scalar mark _ _ _ => mark
  | .sequence mark _ => mark
  | .mapping mark _ => mark
  | .alias mark _ => mark

/-- A node of another kind than expected; a tag that a scalar does not meet comes first. -/
def misfit {α : Type} (node : Node) (expected : String) (path : List String) : Result α :=
  let site : Site := ⟨path, markOf node⟩
  match node with
  | .sequence _ _ => complain (.wrongType "sequence" expected) site
  | .mapping _ _ => complain (.wrongType "map" expected) site
  | .scalar _ tag text style =>
    match Plain.ofScalar tag text style with
    | .ok p => complain (.wrongType p.describe expected) site
    | .error wanted => complain (.wrongValue (Plain.text text).describe wanted) site
  | .alias _ _ => complain (.wrongType "unit value" expected) site

/-! ### Scalars -/

/-- A scalar's text, however it is written. -/
def string (d : Yaml.Document) (expected : String) (path : List String) (node : Node) :
    Result (String × Site) :=
  match follow d node with
  | .scalar mark _ text _ => .ok (text, ⟨path, mark⟩)
  | other => misfit other expected path

/-- A text. -/
def text (d : Yaml.Document) (path : List String) (node : Node) : Result String := do
  return (← string d "a string" path node).1

/-- A boolean: a plain scalar, or a literal one that is tagged as such. -/
def bool (d : Yaml.Document) (path : List String) (node : Node) : Result Bool :=
  let node := follow d node
  match node with
  | .scalar _ tag text style =>
    let may := style = .plain ∨ (style = .literal ∧ tag = some (Yaml.coreTag "bool"))
    match if may then Yaml.boolean? text else none with
    | some b => .ok b
    | none => misfit node "a boolean" path
  | _ => misfit node "a boolean" path

/-- A span of time. -/
def span (d : Yaml.Document) (path : List String) (node : Node) : Result Span := do
  let (text, site) ← string d "a duration" path node
  match Span.parse text with
  | .ok s => return s
  | .error stop =>
    .error (stop.map fun () => ⟨.wrongValue (Plain.text text).describe "a duration", site⟩)

/-- An address. -/
def address (d : Yaml.Document) (path : List String) (node : Node) : Result Address := do
  let (text, site) ← string d "socket address" path node
  match Address.parse? text with
  | some a => return a
  | none => complain .badAddress site

/-! ### Optional values -/

/-- A node that counts as present.  A scalar that is tagged as null has to be so; the complaint
is told at the mapping around it. -/
def isPresent (outer : Site) : Node → Result Bool
  | .scalar _ tag text style =>
    if style ≠ .plain then .ok true
    else
      match tag with
      | none => .ok (!text.isEmpty && !Yaml.isNull text)
      | some t =>
        if t = Yaml.coreTag "null" then
          if Yaml.isNull text then .ok false
          else complain (.wrongValue (Plain.text text).describe "null") outer
        else .ok (!text.isEmpty)
  | _ => .ok true

/-- A value, if one is present. -/
def optional {α : Type} (d : Yaml.Document) (outer : Site) (read : Node → Result α)
    (node : Node) : Result (Option α) := do
  let node := follow d node
  if ← isPresent outer node then some <$> read node else return none

/-! ### Mappings -/

/-- A field of a mapping, as its reader sees it: its name, its path and its value. -/
structure Field where
  name : String
  path : List String
  value : Node

/-- The name of a field, and the step of the path to its value, which an alias does not tell. -/
def fieldName (d : Yaml.Document) (outer : Site) (key : Node) : Result (String × String) := do
  let (name, _) ← string d "field identifier" outer.path key
  match key with
  | .scalar _ _ _ _ => return (name, name)
  | _ => return (name, "?")

/-- Reads the fields one after another into what is known so far; `seen` are the names of the
known fields that came before. -/
def fields {α : Type} (d : Yaml.Document) (outer : Site) (known : List String)
    (read : Field → α → Result α) : List String → α → List (Node × Node) → Result α
  | _, a, [] => .ok a
  | seen, a, (key, value) :: rest => do
    let (name, step) ← fieldName d outer key
    if known.contains name then
      if seen.contains name then complain (.duplicateField name) outer
      else
        let a ← read ⟨name, outer.path ++ [step], value⟩ a
        fields d outer known read (name :: seen) a rest
    else fields d outer known read seen a rest

/-- The entries of a mapping, and where it stands.  An empty plain scalar is a mapping without
entries. -/
def entries (d : Yaml.Document) (expected : String) (path : List String) (node : Node) :
    Result (Site × List (Node × Node)) :=
  match follow d node with
  | .mapping mark es => .ok (⟨path, mark⟩, es)
  | .scalar mark tag text style =>
    if text.isEmpty ∧ style = .plain then .ok (⟨path, mark⟩, [])
    else misfit (.scalar mark tag text style) expected path
  | other => misfit other expected path

/-- A field that has to be there. -/
def require {α : Type} (outer : Site) (name : String) : Option α → Result α
  | some a => .ok a
  | none => complain (.missingField name) outer

/-! ### Sections -/

/-- The log section. -/
def logs (d : Yaml.Document) (path : List String) (node : Node) : Result Logs := do
  let (outer, es) ← entries d "struct Logs" path node
  let read (f : Field) (_ : Logs) : Result Logs := do
    return ⟨← optional d outer (text d f.path) f.value⟩
  fields d outer ["level"] read [] ⟨none⟩ es

/-- The eviction section as far as it is read. -/
structure EvictionDraft where
  enabled : Option Bool
  initialDelay : Option Span
  fixedDelay : Option Span

/-- One field of the eviction section. -/
def evictionField (d : Yaml.Document) (outer : Site) (f : Field) (e : EvictionDraft) :
    Result EvictionDraft :=
  if f.name = "enabled" then do return { e with enabled := some (← bool d f.path f.value) }
  else if f.name = "initial_delay" then do
    return { e with initialDelay := ← optional d outer (span d f.path) f.value }
  else do
    return { e with fixedDelay := ← optional d outer (span d f.path) f.value }

/-- The eviction section. -/
def eviction (d : Yaml.Document) (path : List String) (node : Node) : Result Eviction := do
  let (outer, es) ← entries d "struct Eviction" path node
  let e ← fields d outer ["enabled", "initial_delay", "fixed_delay"] (evictionField d outer) []
    ⟨none, none, none⟩ es
  return ⟨← require outer "enabled" e.enabled, e.initialDelay, e.fixedDelay⟩

/-- The metrics section as far as it is read. -/
structure MetricsDraft where
  enabled : Option Bool
  listen : Option Address

/-- One field of the metrics section. -/
def metricsField (d : Yaml.Document) (outer : Site) (f : Field) (m : MetricsDraft) :
    Result MetricsDraft :=
  if f.name = "enabled" then do return { m with enabled := some (← bool d f.path f.value) }
  else do return { m with listen := ← optional d outer (address d f.path) f.value }

/-- The metrics section. -/
def metrics (d : Yaml.Document) (path : List String) (node : Node) : Result Metrics := do
  let (outer, es) ← entries d "struct Metrics" path node
  let m ← fields d outer ["enabled", "listen"] (metricsField d outer) [] ⟨none, none⟩ es
  return ⟨← require outer "enabled" m.enabled, m.listen⟩

/-- The shutdown section. -/
def shutdown (d : Yaml.Document) (path : List String) (node : Node) : Result Shutdown := do
  let (outer, es) ← entries d "struct Shutdown" path node
  let read (f : Field) (_ : Shutdown) : Result Shutdown := do
    return ⟨← optional d outer (span d f.path) f.value⟩
  fields d outer ["timeout"] read [] ⟨none⟩ es

/-- The settings as far as they are read. -/
structure SettingsDraft where
  env : Option String
  logs : Option Logs
  eviction : Option Eviction
  metrics : Option Metrics
  shutdown : Option Shutdown

/-- One section. -/
def appField (d : Yaml.Document) (outer : Site) (f : Field) (s : SettingsDraft) :
    Result SettingsDraft :=
  if f.name = "env" then do return { s with env := some (← text d f.path f.value) }
  else if f.name = "logs" then do
    return { s with logs := ← optional d outer (logs d f.path) f.value }
  else if f.name = "eviction" then do
    return { s with eviction := ← optional d outer (eviction d f.path) f.value }
  else if f.name = "metrics" then do
    return { s with metrics := ← optional d outer (metrics d f.path) f.value }
  else do
    return { s with shutdown := ← optional d outer (shutdown d f.path) f.value }

/-- All sections. -/
def sections (d : Yaml.Document) (path : List String) (node : Node) : Result Settings := do
  let (outer, es) ← entries d "struct AppBox" path node
  let s ← fields d outer ["env", "logs", "eviction", "metrics", "shutdown"] (appField d outer) []
    ⟨none, none, none, none, none⟩ es
  return ⟨← require outer "env" s.env, s.logs, s.eviction, s.metrics, s.shutdown⟩

end Decode

/-- The settings of a document, which stand in its field `app`. -/
def Settings.ofDocument (d : Yaml.Document) : Attempt Misfit Settings := do
  let (outer, es) ← Decode.entries d "struct FeedCache" [] d.root
  let read (f : Decode.Field) (_ : Option Settings) : Decode.Result (Option Settings) := do
    return some (← Decode.sections d f.path f.value)
  let app ← Decode.fields d outer ["app"] read [] none es
  Decode.require outer "app" app

end CacheWarden
