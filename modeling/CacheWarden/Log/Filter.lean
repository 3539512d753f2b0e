import CacheWarden.Log
import CacheWarden.Text.Blank
import CacheWarden.Text.Numeral
/-!
Which records are logged.  A filter is a list of directives, each a target with a
level; the most specific target that a record's own target starts with decides.
-/

namespace CacheWarden

/-- The least level that is logged, or nothing at all. -/
inductive Threshold where
  | off
  | atLeast (level : Level)
deriving DecidableEq, Repr

/-- What is logged of the parts whose targets start with a text. -/
inductive Directive where
  /-- All parts, if no target is given. -/
  | static (target : Option String) (threshold : Threshold)
  /-- Only inside of spans, which nothing here opens. -/
  | inSpan
deriving DecidableEq, Repr

/-- A filter: its directives in the order they were given. -/
structure LogFilter where
  directives : List Directive
deriving DecidableEq, Repr

/-- A threshold lets a level pass. -/
def Threshold.admits (t : Threshold) (level : Level) : Bool :=
  match t with
  | .off => false
  | .atLeast least => least.weight ≤ level.weight

/-- How specific a directive is about a target; `none` if it says nothing about it. -/
def Directive.weight? (d : Directive) (target : String) : Option Nat :=
  match d with
  | .static none _ => some 0
  | .static (some t) _ => if target.startsWith t then some (t.length + 1) else none
  | .inSpan => none

namespace LogFilter

/-! ### Reading -/

/-- The thresholds by number. -/
def numbered : List Threshold :=
  [.off, .atLeast .error, .atLeast .warn, .atLeast .info, .atLeast .debug, .atLeast .trace]

/-- A threshold by number, or by its name in any case. -/
def threshold? (s : String) : Option Threshold :=
  let cs := s.toList
  match Text.numeral? 10 (if cs.head? = some '+' then cs.tail else cs) with
  | some n => numbered[n]?
  | none =>
    match s.toLower with
    | "off" => some .off
    | "error" => some (.atLeast .error)
    | "warn" => some (.atLeast .warn)
    | "info" => some (.atLeast .info)
    | "debug" => some (.atLeast .debug)
    | "trace" => some (.atLeast .trace)
    | _ => none

/-- A character that a target may start with. -/
def startsTarget (c : Char) : Bool :=
  c == '-' || c == ':' || c == '_' || c.isAlphanum || 0x80 ≤ c.toNat

/-- One directive: a level, a target, or a target with a level; a target alone is logged at
every level. -/
def directive? (cs : List Char) : Option Directive :=
  let target := cs.takeWhile fun c => c != '=' && c != '['
  let behind := cs.dropWhile fun c => c != '=' && c != '['
  match cs, behind with
  | [], _ => some (.static none (.atLeast .trace))
  | '[' :: _, _ | _, '[' :: _ => if cs.contains ']' then some .inSpan else none
  | c :: _, [] =>
    let word := String.ofList cs
    if !startsTarget c then none
    else
      match threshold? word with
      | some t => some (.static none t)
      | none => some (.static (some word) (.atLeast .trace))
  | c :: _, _ :: level =>
    if !startsTarget c then none
    else if level.isEmpty then some (.static (some (String.ofList target)) (.atLeast .trace))
    else (threshold? (String.ofList level)).map (.static (some (String.ofList target)))

/-- The parts of a text between commas that are not empty. -/
def parts (text : String) : List (List Char) :=
  (split text.toList []).filter (!·.isEmpty)
where
  /-- The pieces between commas; the current one comes latest character first. -/
  split : List Char → List Char → List (List Char)
    | [], piece => [piece.reverse]
    | c :: cs, piece => if c = ',' then piece.reverse :: split cs [] else split cs (c :: piece)

/-- A filter without any directive logs errors. -/
def ofDirectives (ds : List Directive) : LogFilter :=
  if ds.isEmpty then ⟨[.static none (.atLeast .error)]⟩ else ⟨ds⟩

/-- The filter that a text denotes, if every part of it is a directive. -/
def parse? (text : String) : Option LogFilter :=
  ((parts text).mapM directive?).map ofDirectives

/-- The filter of those parts of a text that are directives. -/
def parseLossy (text : String) : LogFilter :=
  ofDirectives ((parts text).filterMap directive?)

/-! ### Deciding -/

/-- The threshold for a target: of the most specific directives, the last one's. -/
def thresholdFor (f : LogFilter) (target : String) : Threshold :=
  (f.directives.foldl
    (fun best d =>
      match d, d.weight? target with
      | .static _ t, some w => if best.1 ≤ w then (w, t) else best
      | _, _ => best)
    (0, Threshold.off)).2

/-- A record is logged. -/
def admits (f : LogFilter) (r : Record) : Bool :=
  (f.thresholdFor r.origin.target).admits r.level

/-- The filter that the environment asks for, or else the settings, or else one for records
from the level `info` up. -/
def choose (environment level : Option String) : LogFilter :=
  (environment.bind parse?).getD (parseLossy (level.getD "info"))

end LogFilter

end CacheWarden
