import CacheWarden.Yaml.Mark
/-!
Gaps inside a scalar that runs over blanks and line breaks: what was skipped
since its last visible character, and what that stands for.
-/

namespace CacheWarden.Yaml

/-- Blanks and breaks since the last visible character. -/
inductive Gap where
  /-- Nothing. -/
  | nothing
  /-- Blanks on one line, latest first. -/
  | blanks (cs : List Char)
  /-- A first break, unless it was escaped, and the further ones, latest first. -/
  | breaks (first : Option Char) (more : List Char)
deriving DecidableEq, Repr

/-- A gap with one more blank.  Blanks around breaks count for nothing. -/
def Gap.addBlank (c : Char) : Gap → Gap
  | .nothing => .blanks [c]
  | .blanks cs => .blanks (c :: cs)
  | .breaks first more => .breaks first more

/-- A gap with one more break. -/
def Gap.addBreak (c : Char) : Gap → Gap
  | .breaks first more => .breaks first (c :: more)
  | _ => .breaks (some c) []

/-- The gap holds a break. -/
def Gap.hasBreak : Gap → Bool
  | .breaks _ _ => true
  | _ => false

/-- What a gap stands for, latest character first: blanks stand for themselves, a lone line
feed for a space, and one in front of further breaks for nothing. -/
def Gap.foldedRev : Gap → List Char
  | .nothing => []
  | .blanks cs => cs
  | .breaks (some '\n') [] => [' ']
  | .breaks (some '\n') more => more
  | .breaks first more => more ++ first.toList

end CacheWarden.Yaml
