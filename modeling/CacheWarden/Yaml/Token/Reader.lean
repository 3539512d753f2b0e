import CacheWarden.Yaml.Token.Name
/-!
The tokens of a text.

A key may start long before the colon that makes it one.  So the reader keeps,
for each flow collection it is in and for the block around them, the place where
a key may have started; the colon then puts the key's token there.  Outside of
flow collections the columns of keys and dashes say where collections start and
end.
-/

namespace CacheWarden.Yaml

/-! ### State -/

/-- Where a key may have started: how many tokens came before it, and where it stands.
A required one stands where only a key can. -/
structure PendingKey where
  required : Bool
  number : Nat
  mark : Mark

/-- What is known between two tokens. -/
structure Lexer where
  cursor : Cursor
  /-- The tokens so far, latest first. -/
  tokens : List Token
  /-- The pending key of the innermost collection. -/
  pending : Option PendingKey
  /-- Those around each flow collection, innermost first. -/
  outer : List (Option PendingKey)
  /-- The column of the innermost block collection; −1 outside of all. -/
  indent : Int
  /-- The columns of the block collections around it, innermost first. -/
  indents : List Int
  /-- A key may start here. -/
  keyAllowed : Bool

/-- The state at the start of a text. -/
def Lexer.start (cs : List Char) : Lexer :=
  ⟨⟨cs, .start⟩, [], none, [], -1, [], true⟩

/-- Inside of a flow collection. -/
def Lexer.inFlow (s : Lexer) : Bool := !s.outer.isEmpty

/-- The place of the next character. -/
def Lexer.mark (s : Lexer) : Mark := s.cursor.mark

/-- Adds a token between the next character and a cursor, and goes on from there. -/
def Lexer.emit (s : Lexer) (kind : TokenKind) (behind : Cursor) : Lexer :=
  { s with tokens := ⟨kind, s.mark, behind.mark⟩ :: s.tokens, cursor := behind }

/-- Inserts a token of no length so that `number` tokens stand in front of it. -/
def Lexer.insert (s : Lexer) (kind : TokenKind) (number : Nat) (mark : Mark) : Lexer :=
  let later := s.tokens.length - number
  { s with tokens := s.tokens.take later ++ ⟨kind, mark, mark⟩ :: s.tokens.drop later }

/-! ### Block collections -/

/-- Opens a block collection at a column, unless one is open there or the text is in a flow
collection. -/
def Lexer.roll (s : Lexer) (kind : TokenKind) (column number : Nat) (mark : Mark) : Lexer :=
  if s.inFlow || (column : Int) ≤ s.indent then s
  else
    let s := s.insert kind number mark
    { s with indent := column, indents := s.indent :: s.indents }

/-- Closes the block collections that start behind a column. -/
def closeBlocks (column : Int) (mark : Mark) :
    List Int → Int → List Token → List Token × Int × List Int
  | [], indent, tokens => (tokens, indent, [])
  | i :: rest, indent, tokens =>
    if indent ≤ column then (tokens, indent, i :: rest)
    else closeBlocks column mark rest i (⟨.blockEnd, mark, mark⟩ :: tokens)

/-- Closes the block collections that start behind a column, unless the text is in a flow
collection. -/
def Lexer.unroll (s : Lexer) (column : Int) : Lexer :=
  if s.inFlow then s
  else
    let (tokens, indent, indents) := closeBlocks column s.mark s.indents s.indent s.tokens
    { s with tokens, indent, indents }

/-! ### Pending keys -/

/-- Gives up a pending key. -/
def giveUp : Option PendingKey → Except Fault Unit
  | some k => if k.required then .error ⟨.missingColon, k.mark⟩ else .ok ()
  | none => .ok ()

/-- Gives up the innermost pending key. -/
def Lexer.dropKey (s : Lexer) : Except Fault Lexer := do
  giveUp s.pending
  pure { s with pending := none }

/-- Lets a key start here, if it may. -/
def Lexer.saveKey (s : Lexer) : Except Fault Lexer :=
  if s.keyAllowed then do
    let s ← s.dropKey
    let required := !s.inFlow && s.indent == (s.mark.column : Int)
    pure { s with pending := some ⟨required, s.tokens.length, s.mark⟩ }
  else pure s

/-- A key stands on one line and has at most 1024 characters in front of its colon. -/
def PendingKey.isStale (k : PendingKey) (m : Mark) : Bool :=
  k.mark.line < m.line || k.mark.index + 1024 < m.index

/-- A pending key, given up if it is stale. -/
def refresh (m : Mark) : Option PendingKey → Except Fault (Option PendingKey)
  | some k => if k.isStale m then do giveUp (some k); pure none else pure (some k)
  | none => pure none

/-- Gives up every stale key. -/
def Lexer.dropStale (s : Lexer) : Except Fault Lexer := do
  let outer ← s.outer.mapM (refresh s.mark)
  let pending ← refresh s.mark s.pending
  pure { s with outer, pending }

/-! ### Tokens -/

/-- Skips what stands between tokens: blanks, comments and breaks, and a byte order mark at
the very start.  A break lets a key start outside of flow collections; a tab is no gap where
a key may start in a block. -/
def skipGap (flow : Bool) : (comment keyAllowed : Bool) → List Char → Mark → Cursor × Bool
  | _, keyAllowed, [], m => (⟨[], m⟩, keyAllowed)
  | comment, keyAllowed, c :: rest, m =>
    if isBreak c then skipGap flow false (keyAllowed || !flow) rest (m.step c)
    else if comment || c == ' ' || (c == '\t' && (flow || !keyAllowed)) ||
        (m.index == 0 && c == '\ufeff') then skipGap flow comment keyAllowed rest (m.step c)
    else if c = '#' then skipGap flow true keyAllowed rest (m.step c)
    else (⟨c :: rest, m⟩, keyAllowed)

/-- Goes on to the next token. -/
def Lexer.skip (s : Lexer) : Lexer :=
  let (cursor, keyAllowed) := skipGap s.inFlow false s.keyAllowed s.cursor.rest s.mark
  { s with cursor, keyAllowed }

/-- An indicator of one character. -/
def Lexer.indicator (s : Lexer) (kind : TokenKind) (keyAllowed : Bool) : Lexer :=
  { s.emit kind s.cursor.next with keyAllowed }

/-- Ends everything at the end of the text, on a line of its own. -/
def Lexer.finish (s : Lexer) : Except Fault Lexer := do
  let m := s.mark
  let s := if m.column = 0 then s else { s with cursor := ⟨[], ⟨m.index, m.line + 1, 0⟩⟩ }
  let s ← (s.unroll (-1)).dropKey
  pure (s.emit .streamEnd s.cursor)

/-- Ends every block collection in front of a directive or document mark. -/
def Lexer.leaveBlocks (s : Lexer) : Except Fault Lexer := do
  let s ← (s.unroll (-1)).dropKey
  pure { s with keyAllowed := false }

/-- A directive. -/
def Lexer.directive (s : Lexer) : Except Fault Lexer := do
  let s ← s.leaveBlocks
  let (kind, behind) ← readDirective s.cursor.next
  pure (s.emit kind behind)

/-- A mark of three characters. -/
def Lexer.documentMark (s : Lexer) (kind : TokenKind) : Except Fault Lexer := do
  let s ← s.leaveBlocks
  pure (s.emit kind s.cursor.next.next.next)

/-- The start of a flow collection, which may itself be a key. -/
def Lexer.openFlow (s : Lexer) (kind : TokenKind) : Except Fault Lexer := do
  let s ← s.saveKey
  pure (({ s with outer := s.pending :: s.outer, pending := none }).indicator kind true)

/-- The end of a flow collection. -/
def Lexer.closeFlow (s : Lexer) (kind : TokenKind) : Except Fault Lexer := do
  let s ← s.dropKey
  let s :=
    match s.outer with
    | [] => s
    | k :: outer => { s with pending := k, outer }
  pure (s.indicator kind false)

/-- The comma between the entries of a flow collection. -/
def Lexer.flowEntry (s : Lexer) : Except Fault Lexer := do
  let s ← s.dropKey
  pure (s.indicator .flowEntry true)

/-- The dash in front of an entry. -/
def Lexer.blockEntry (s : Lexer) : Except Fault Lexer := do
  if !s.inFlow && !s.keyAllowed then throw ⟨.blockEntryNotAllowed, s.mark⟩
  let s ← (s.roll .blockSequence s.mark.column s.tokens.length s.mark).dropKey
  pure (s.indicator .blockEntry true)

/-- The question mark in front of a key. -/
def Lexer.explicitKey (s : Lexer) : Except Fault Lexer := do
  if !s.inFlow && !s.keyAllowed then throw ⟨.keyNotAllowed, s.mark⟩
  let s ← (s.roll .blockMapping s.mark.column s.tokens.length s.mark).dropKey
  pure (s.indicator .key (!s.inFlow))

/-- The colon behind a key. -/
def Lexer.colon (s : Lexer) : Except Fault Lexer :=
  match s.pending with
  | some k =>
    let s := s.insert .key k.number k.mark
    let s := s.roll .blockMapping k.mark.column k.number k.mark
    .ok (({ s with pending := none }).indicator .value false)
  | none => do
    if !s.inFlow && !s.keyAllowed then throw ⟨.valueNotAllowed, s.mark⟩
    let s := s.roll .blockMapping s.mark.column s.tokens.length s.mark
    pure (s.indicator .value (!s.inFlow))

/-- A token that may start a key. -/
def Lexer.keyPart (s : Lexer) (read : Cursor → Except Fault (TokenKind × Cursor)) :
    Except Fault Lexer := do
  let s ← s.saveKey
  let (kind, behind) ← read s.cursor
  pure { s.emit kind behind with keyAllowed := false }

/-- A quoted scalar. -/
def Lexer.quotedScalar (s : Lexer) (single : Bool) : Except Fault Lexer :=
  s.keyPart fun c => do
    let c := c.next
    let (text, behind) ← readQuoted single 0 c.rest c.mark [] .nothing
    pure (.scalar (String.ofList text.reverse) (if single then .single else .double), behind)

/-- A block scalar, which is no key. -/
def Lexer.blockScalar (s : Lexer) (folded : Bool) : Except Fault Lexer := do
  let s ← s.dropKey
  let (text, behind) ← readBlockScalar folded s.indent s.cursor.next
  pure { s.emit (.scalar text (if folded then .folded else .literal)) behind with
    keyAllowed := true }

/-- A plain scalar. -/
def Lexer.plainScalar (s : Lexer) : Except Fault Lexer := do
  let s ← s.saveKey
  let (text, gap, behind) ←
    readPlain s.inFlow (s.indent + 1).toNat s.cursor.rest s.mark [] .nothing
  pure { s.emit (.scalar (String.ofList text.reverse) .plain) behind with
    keyAllowed := gap.hasBreak }

/-- A plain scalar may start here. -/
def startsPlain (flow : Bool) (c : Char) (rest : List Char) : Bool :=
  if c = '-' then !rest.head?.any isBlank
  else if c = '?' ∨ c = ':' then !flow && !atGap rest
  else !isBlank c && !",[]\x7b\x7d#&*!|>'\"%@\x60".toList.contains c

/-- The next token, in front of a character. -/
def Lexer.token (s : Lexer) (c : Char) (rest : List Char) : Except Fault Lexer :=
  let flow := s.inFlow
  if s.mark.column = 0 ∧ c = '%' then s.directive
  else if s.mark.column = 0 ∧ atIndicator '-' (c :: rest) then s.documentMark .documentStart
  else if s.mark.column = 0 ∧ atIndicator '.' (c :: rest) then s.documentMark .documentEnd
  else if c = '[' then s.openFlow .flowSequence
  else if c = '\x7b' then s.openFlow .flowMapping
  else if c = ']' then s.closeFlow .flowSequenceEnd
  else if c = '\x7d' then s.closeFlow .flowMappingEnd
  else if c = ',' then s.flowEntry
  else if c = '-' ∧ atGap rest then s.blockEntry
  else if c = '?' ∧ (flow || atGap rest) then s.explicitKey
  else if c = ':' ∧ (flow || atGap rest) then s.colon
  else if c = '*' then s.keyPart fun c => do
    let (name, behind) ← readAnchor c.next
    pure (.alias name, behind)
  else if c = '&' then s.keyPart fun c => do
    let (name, behind) ← readAnchor c.next
    pure (.anchor name, behind)
  else if c = '!' then s.keyPart fun c => do
    let ((handle, suffix), behind) ← readTag flow c.next
    pure (.tag handle suffix, behind)
  else if (c = '|' ∨ c = '>') ∧ !flow then s.blockScalar (c == '>')
  else if c = '\'' ∨ c = '"' then s.quotedScalar (c == '\'')
  else if startsPlain flow c rest then s.plainScalar
  else .error ⟨.unexpectedCharacter, s.mark⟩

/-- Goes on over the next token, in front of which stale keys are given up and block collections
end. -/
def Lexer.fetch (s : Lexer) : Except Fault Lexer := do
  let s ← s.skip.dropStale
  let s := s.unroll s.mark.column
  match s.cursor.rest with
  | [] => s.finish
  | c :: rest => s.token c rest

/-- No token but the last is left. -/
def Lexer.atEnd (s : Lexer) : Bool := s.skip.cursor.rest.isEmpty

/-! ### All tokens -/

/-- How many tokens keep their place: nothing comes in front of them any more, because none of
them may still be a key.  Where a key is missing its colon, it is as many as `before`. -/
def Lexer.settledCount (s : Lexer) (before : Nat) : Nat :=
  match s.dropStale with
  | .error _ => before
  | .ok s =>
    (s.pending :: s.outer).foldl (fun n k => k.elim n fun k => min n k.number) s.tokens.length

/-- Reads to the end, or to the first fault; `count` tokens were handed on before the last one was
read.  Every token but the last takes at least one character, so there are fewer of them than
`fuel` counts. -/
def Lexer.run : (fuel : Nat) → (count : Nat) → Lexer → Except (Broken (List Token)) Lexer
  | 0, _, s => .ok s
  | fuel + 1, count, s =>
    let count := s.settledCount count
    match s.fetch with
    | .error f => .error ⟨f, s.tokens.reverse.take count⟩
    | .ok t => if s.atEnd then .ok t else t.run fuel count

/-- The place of the first character that a text may not hold. -/
def firstForbidden? : List Char → Mark → Option Mark
  | [], _ => none
  | c :: rest, m => if isAllowed c then firstForbidden? rest (m.step c) else some m

/-- The tokens of a text. -/
def tokens (text : String) : Except (Broken (List Token)) (List Token) :=
  match firstForbidden? text.toList .start with
  | some m => .error ⟨⟨.forbiddenCharacter, m⟩, []⟩
  | none => do
    let cs := unifyBreaks text.toList
    let s ← (Lexer.start cs).run (cs.length + 1) 0
    pure s.tokens.reverse

end CacheWarden.Yaml
