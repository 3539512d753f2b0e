import CacheWarden.Text.Numeral
import CacheWarden.Yaml.Fault
import CacheWarden.Yaml.Gap
/-!
Scalars as they are written: plain, between single or double quotes, and as a
block.  Each reader starts behind the characters that announce the scalar and
gives its text with the cursor behind it.
-/

namespace CacheWarden.Yaml

/-- How a scalar is written. -/
inductive Style where
  | plain
  | single
  | double
  | literal
  | folded
deriving DecidableEq, Repr, Inhabited

/-! ### Plain scalars -/

/-- A plain scalar ends in front of these in a flow collection. -/
def isFlowIndicator (c : Char) : Bool :=
  c == ',' || c == '[' || c == ']' || c == '\x7b' || c == '\x7d'

/-- A colon directly in front of these is refused in a flow collection. -/
def followsBadColon : List Char → Bool
  | [] => false
  | c :: _ => isFlowIndicator c || c == '?'

/-- Reads on in a plain scalar.  `indent` is the least column of a line that continues it
outside of flow collections.  Gives its text, latest character first, and the gap it ends in. -/
def readPlain (flow : Bool) (indent : Nat) :
    List Char → Mark → List Char → Gap → Except Fault (List Char × Gap × Cursor)
  | [], m, text, gap => .ok (text, gap, ⟨[], m⟩)
  | c :: rest, m, text, gap =>
    if isBlank c then
      if gap.hasBreak && m.column < indent && c == '\t' then .error ⟨.tabInIndentation, m⟩
      else readPlain flow indent rest (m.step c) text (gap.addBlank c)
    else if isBreak c then readPlain flow indent rest (m.step c) text (gap.addBreak c)
    else if gap ≠ .nothing ∧
        ((!flow && m.column < indent) || atDocumentMark m (c :: rest) || c == '#') then
      .ok (text, gap, ⟨c :: rest, m⟩)
    else if flow && c == ':' && followsBadColon rest then .error ⟨.colonInPlainScalar, m⟩
    else if (c == ':' && atGap rest) || (flow && isFlowIndicator c) then
      .ok (text, gap, ⟨c :: rest, m⟩)
    else readPlain flow indent rest (m.step c) (c :: (gap.foldedRev ++ text)) .nothing

/-! ### Quoted scalars -/

/-- The value of leading hexadecimal digits. -/
def hexPrefix? (n : Nat) (cs : List Char) : Option Nat :=
  if (cs.take n).length = n then Text.numeral? 16 (cs.take n) else none

/-- An escape by code point with `n` digits; gives how many characters it takes. -/
def codePoint? (n : Nat) (cs : List Char) : Option (Char × Nat) :=
  match hexPrefix? n cs with
  | some v => if v.isValidChar then some (Char.ofNat v, n + 1) else none
  | none => none

/-- The character that an escape stands for, and how many characters it takes behind the
backslash. -/
def escape? : List Char → Option (Char × Nat)
  | '0' :: _ => some ('\x00', 1)
  | 'a' :: _ => some ('\x07', 1)
  | 'b' :: _ => some ('\x08', 1)
  | 't' :: _ => some ('\t', 1)
  | '\t' :: _ => some ('\t', 1)
  | 'n' :: _ => some ('\n', 1)
  | 'v' :: _ => some ('\x0b', 1)
  | 'f' :: _ => some ('\x0c', 1)
  | 'r' :: _ => some ('\r', 1)
  | 'e' :: _ => some ('\x1b', 1)
  | ' ' :: _ => some (' ', 1)
  | '"' :: _ => some ('"', 1)
  | '/' :: _ => some ('/', 1)
  | '\\' :: _ => some ('\\', 1)
  | 'N' :: _ => some ('\u0085', 1)
  | '_' :: _ => some ('\u00a0', 1)
  | 'L' :: _ => some ('\u2028', 1)
  | 'P' :: _ => some ('\u2029', 1)
  | 'x' :: rest => codePoint? 2 rest
  | 'u' :: rest => codePoint? 4 rest
  | 'U' :: rest => codePoint? 8 rest
  | _ => none

/-- Reads on in a quoted scalar; `taken` characters in front already count.  Gives its text,
latest character first. -/
def readQuoted (single : Bool) :
    Nat → List Char → Mark → List Char → Gap → Except Fault (List Char × Cursor)
  | _, [], m, _, _ => .error ⟨.unclosedScalar, m⟩
  | taken + 1, c :: rest, m, text, gap => readQuoted single taken rest (m.step c) text gap
  | 0, c :: rest, m, text, gap =>
    if isBlank c then readQuoted single 0 rest (m.step c) text (gap.addBlank c)
    else if isBreak c then readQuoted single 0 rest (m.step c) text (gap.addBreak c)
    else if atDocumentMark m (c :: rest) then .error ⟨.documentMarkInScalar, m⟩
    else
      let text := gap.foldedRev ++ text
      if single then
        if c = '\'' then
          if rest.head? = some '\'' then readQuoted single 1 rest (m.step c) ('\'' :: text) .nothing
          else .ok (text, ⟨rest, m.step c⟩)
        else readQuoted single 0 rest (m.step c) (c :: text) .nothing
      else if c = '"' then .ok (text, ⟨rest, m.step c⟩)
      else if c = '\\' then
        if rest.head?.any isBreak then readQuoted single 1 rest (m.step c) text (.breaks none [])
        else
          match escape? rest with
          | some (e, n) => readQuoted single n rest (m.step c) (e :: text) .nothing
          | none => .error ⟨.badEscape, m⟩
      else readQuoted single 0 rest (m.step c) (c :: text) .nothing

/-! ### Block scalars -/

/-- What becomes of the breaks at the end of a block scalar. -/
inductive Chomping where
  | clip
  | strip
  | keep
deriving DecidableEq, Repr

/-- The header of a block scalar: an indentation and a chomping mark, in either order. -/
structure BlockHeader where
  increment : Option Nat
  chomping : Chomping

/-- A chomping mark. -/
def chomping? (c : Char) : Option Chomping :=
  if c = '+' then some .keep else if c = '-' then some .strip else none

/-- A single indentation digit, if one comes first; zero is refused. -/
def readIncrement (c : Cursor) : Except Fault (Option Nat × Cursor) :=
  match c.rest with
  | d :: _ =>
    if Text.isDigit d then
      if d = '0' then .error ⟨.badBlockHeader, c.mark⟩
      else .ok (some (Text.digitValue d), c.next)
    else .ok (none, c)
  | [] => .ok (none, c)

/-- A chomping mark, if one comes first. -/
def readChomping (c : Cursor) : Option Chomping × Cursor :=
  match c.rest with
  | x :: _ =>
    match chomping? x with
    | some h => (some h, c.next)
    | none => (none, c)
  | [] => (none, c)

/-- The rest of a line that may hold a comment only, with its break. -/
def skipLineEnd (problem : Problem) (c : Cursor) : Except Fault Cursor :=
  let c := c.skipBlanks
  let c := if c.at (· == '#') then (c.span fun x => !isBreak x).2 else c
  match c.rest with
  | [] => .ok c
  | x :: _ => if isBreak x then .ok c.next else .error ⟨problem, c.mark⟩

/-- The header of a block scalar, up to the end of its line. -/
def readBlockHeader (c : Cursor) : Except Fault (BlockHeader × Cursor) := do
  let (before, c) := readChomping c
  let (increment, c) ← readIncrement c
  let (behind, c) := if before.isNone && increment.isSome then readChomping c else (none, c)
  let c ← skipLineEnd .badBlockHeader c
  pure (⟨increment, (before.or behind).getD .clip⟩, c)

/-- What is known of a block scalar while it is read. -/
structure BlockState where
  /-- The column of its lines, once known. -/
  indent : Option Nat
  /-- The longest run of spaces on the blank lines at its start. -/
  widest : Nat
  /-- Its text, latest character first. -/
  text : List Char
  /-- The break behind its latest line. -/
  lineBreak : Option Char
  /-- The blank lines behind that, latest first. -/
  blankLines : List Char
  /-- Its latest line starts with a blank. -/
  startsBlank : Bool

/-- The text with the breaks in front of a new line.  In a folded scalar a line feed between
two lines that start without a blank is a space, or nothing in front of blank lines. -/
def BlockState.joined (folded : Bool) (s : BlockState) (startsBlank : Bool) : List Char :=
  if folded ∧ s.lineBreak = some '\n' ∧ !s.startsBlank ∧ !startsBlank then
    if s.blankLines = [] then ' ' :: s.text else s.blankLines ++ s.text
  else s.blankLines ++ s.lineBreak.toList ++ s.text

/-- Reads on in a block scalar, either inside one of its lines or in the indentation of the
next.  `least` is the least column its lines may have. -/
def readBlock (folded : Bool) (least : Nat) :
    Bool → List Char → Mark → BlockState → Except Fault (BlockState × Cursor)
  | true, [], m, s => .ok ({ s with lineBreak := none, blankLines := [] }, ⟨[], m⟩)
  | false, [], m, s => .ok (s, ⟨[], m⟩)
  | true, c :: rest, m, s =>
    if isBreak c then
      readBlock folded least false rest (m.step c) { s with lineBreak := some c, blankLines := [] }
    else readBlock folded least true rest (m.step c) { s with text := c :: s.text }
  | false, c :: rest, m, s =>
    let inIndent : Bool := s.indent.all (m.column < ·)
    let widest := max s.widest m.column
    if inIndent && c == ' ' then readBlock folded least false rest (m.step c) s
    else if inIndent && c == '\t' then .error ⟨.tabInIndentation, m⟩
    else if isBreak c then
      readBlock folded least false rest (m.step c)
        { s with widest, blankLines := c :: s.blankLines }
    else
      let indent := s.indent.getD (max widest least)
      if m.column = indent then
        readBlock folded least true rest (m.step c)
          { s with
            indent := some indent
            text := c :: s.joined folded (isBlank c)
            lineBreak := none
            blankLines := []
            startsBlank := isBlank c }
      else .ok (s, ⟨c :: rest, m⟩)

/-- A block scalar behind its `|` or `>`, inside a collection at column `parent`. -/
def readBlockScalar (folded : Bool) (parent : Int) (c : Cursor) :
    Except Fault (String × Cursor) := do
  let (header, c) ← readBlockHeader c
  let least := max 1 (parent + 1).toNat
  let indent := header.increment.map fun n => (max parent 0).toNat + n
  let (s, c) ← readBlock folded least false c.rest c.mark ⟨indent, 0, [], none, [], false⟩
  let text := s.text.reverse
  let tail :=
    match header.chomping with
    | .strip => []
    | .clip => s.lineBreak.toList
    | .keep => s.lineBreak.toList ++ s.blankLines.reverse
  pure (String.ofList (text ++ tail), c)

end CacheWarden.Yaml
