/-!
Characters and places of a YAML text.  Line breaks of every kind but the two
separators are one line feed before anything else looks at the text, so a break
is a single character and places are told by lines and columns alone.
-/

namespace CacheWarden.Yaml

/-- A place: characters from the start, line and column, all from 0. -/
structure Mark where
  index : Nat
  line : Nat
  column : Nat
deriving DecidableEq, Repr, Inhabited

/-- The start of a text. -/
def Mark.start : Mark := ⟨0, 0, 0⟩

/-- Space or tab. -/
def isBlank (c : Char) : Bool := c == ' ' || c == '\t'

/-- A line feed, or a line or paragraph separator. -/
def isBreak (c : Char) : Bool := c == '\n' || c == '\u2028' || c == '\u2029'

/-- The place behind a character. -/
def Mark.step (m : Mark) (c : Char) : Mark :=
  if isBreak c then ⟨m.index + 1, m.line + 1, 0⟩ else ⟨m.index + 1, m.line, m.column + 1⟩

/-- Every line break but a separator as one line feed. -/
def unifyBreaks : List Char → List Char
  | [] => []
  | '\r' :: '\n' :: rest => '\n' :: unifyBreaks rest
  | c :: rest => (if c = '\r' ∨ c = '\u0085' then '\n' else c) :: unifyBreaks rest

/-- A character that a YAML text may hold. -/
def isAllowed (c : Char) : Bool :=
  let n := c.toNat
  n == 0x09 || n == 0x0A || n == 0x0D || (0x20 ≤ n && n ≤ 0x7E) || n == 0x85 ||
    (0xA0 ≤ n && n ≤ 0xD7FF) || (0xE000 ≤ n && n ≤ 0xFFFD) || 0x10000 ≤ n

/-- A letter or digit of a name: for anchors, directives and tag handles. -/
def isNameChar (c : Char) : Bool :=
  c.isAlphanum || c == '_' || c == '-'

/-- The next character is a blank, a break or the end. -/
def atGap : List Char → Bool
  | [] => true
  | c :: _ => isBlank c || isBreak c

/-- A run of three equal characters that marks a document, with a gap behind it. -/
def atIndicator (c : Char) : List Char → Bool
  | x :: y :: z :: rest => x == c && y == c && z == c && atGap rest
  | _ => false

/-- A document mark stands here. -/
def atDocumentMark (m : Mark) (cs : List Char) : Bool :=
  m.column == 0 && (atIndicator '-' cs || atIndicator '.' cs)

/-- A text that is still to be read, and where it starts. -/
structure Cursor where
  rest : List Char
  mark : Mark
deriving Inhabited

/-- Leaves one character behind. -/
def Cursor.next (c : Cursor) : Cursor :=
  match c.rest with
  | [] => c
  | x :: rest => ⟨rest, c.mark.step x⟩

/-- The leading characters that pass a test, and the cursor behind them. -/
def spanFrom (p : Char → Bool) : List Char → Mark → List Char × Cursor
  | [], m => ([], ⟨[], m⟩)
  | c :: rest, m =>
    if p c then
      let r := spanFrom p rest (m.step c)
      (c :: r.1, r.2)
    else ([], ⟨c :: rest, m⟩)

/-- The leading characters that pass a test, and the cursor behind them. -/
def Cursor.span (p : Char → Bool) (c : Cursor) : List Char × Cursor :=
  spanFrom p c.rest c.mark

/-- The cursor behind leading blanks. -/
def Cursor.skipBlanks (c : Cursor) : Cursor := (c.span isBlank).2

/-- The next character passes a test. -/
def Cursor.at (c : Cursor) (p : Char → Bool) : Bool :=
  match c.rest with
  | [] => false
  | x :: _ => p x

end CacheWarden.Yaml
