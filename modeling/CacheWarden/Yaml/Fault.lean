import CacheWarden.Text.Numeral
import CacheWarden.Yaml.Mark
/-!
Why a text is not one well-formed YAML document, and what is read of it for all that.
-/

namespace CacheWarden.Yaml

/-- What is wrong with a text. -/
inductive Problem where
  | forbiddenCharacter
  | missingColon
  | blockEntryNotAllowed
  | keyNotAllowed
  | valueNotAllowed
  | unexpectedCharacter
  | badDirective
  | badAnchor
  | badTag
  | undefinedTagHandle
  | badBlockHeader
  | tabInIndentation
  | documentMarkInScalar
  | unclosedScalar
  | badEscape
  | colonInPlainScalar
  | unexpectedToken
  | unknownAlias
  | secondDocument
deriving DecidableEq, Repr

/-- The problem in words. -/
def Problem.message : Problem → String
  | .forbiddenCharacter => "control characters are not allowed"
  | .missingColon => "could not find expected ':'"
  | .blockEntryNotAllowed => "block sequence entries are not allowed in this context"
  | .keyNotAllowed => "mapping keys are not allowed in this context"
  | .valueNotAllowed => "mapping values are not allowed in this context"
  | .unexpectedCharacter => "found character that cannot start any token"
  | .badDirective => "found a malformed directive"
  | .badAnchor => "did not find expected alphabetic or numeric character"
  | .badTag => "found a malformed tag"
  | .undefinedTagHandle => "found undefined tag handle"
  | .badBlockHeader => "found a malformed block scalar header"
  | .tabInIndentation => "found a tab character where an indentation space is expected"
  | .documentMarkInScalar => "found unexpected document indicator"
  | .unclosedScalar => "found unexpected end of stream"
  | .badEscape => "found unknown escape character"
  | .colonInPlainScalar => "found unexpected ':'"
  | .unexpectedToken => "did not find expected node content"
  | .unknownAlias => "unknown anchor"
  | .secondDocument => "deserializing from YAML containing more than one document is not supported"

/-- A problem and its place. -/
structure Fault where
  problem : Problem
  mark : Mark
deriving DecidableEq, Repr

/-- The fault in words; lines and columns count from 1. -/
def Fault.message (f : Fault) : String :=
  f.problem.message ++ " at line " ++ Text.ordinal (f.mark.line + 1) ++
    " column " ++ Text.ordinal (f.mark.column + 1)

/-- A fault, and what was read in front of it. -/
structure Broken (α : Type) where
  fault : Fault
  front : α
deriving Repr

/-- All that was read: up to the fault, if there is one. -/
def upToFault {α : Type} : Except (Broken α) α → α
  | .ok a => a
  | .error b => b.front

end CacheWarden.Yaml
