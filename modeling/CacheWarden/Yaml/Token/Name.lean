import CacheWarden.Text.Utf8
import CacheWarden.Yaml.Token
/-!
Names in a YAML text: anchors, tags and directives.  Each reader starts behind
the character that announces the name.
-/

namespace CacheWarden.Yaml

/-! ### Anchors -/

/-- An anchor's name may be followed by these without a gap. -/
def endsAnchor (cs : List Char) : Bool :=
  atGap cs || (cs.head?.any fun c => "?:,]\x7d%@\x60".toList.contains c)

/-- The name of an anchor or alias. -/
def readAnchor (c : Cursor) : Except Fault (String × Cursor) :=
  let (name, behind) := c.span isNameChar
  if name.isEmpty || !endsAnchor behind.rest then .error ⟨.badAnchor, behind.mark⟩
  else .ok (String.ofList name, behind)

/-! ### Tags -/

/-- A character of a tag; `wide` admits those that mean something in flow collections. -/
def isTagChar (wide : Bool) (c : Char) : Bool :=
  isNameChar c || ";/?:@&=+$.%!~*'()".toList.contains c || (wide && ",[]".toList.contains c)

/-- Bytes that are written as a percent sign and two hexadecimal digits each. -/
def unescapePercent? : List Char → Option (List UInt8)
  | [] => some []
  | '%' :: a :: b :: rest =>
    match Text.digitValue? 16 a, Text.digitValue? 16 b with
    | some x, some y => (unescapePercent? rest).map ((16 * x + y).toUInt8 :: ·)
    | _, _ => none
  | c :: rest => if c = '%' then none else (unescapePercent? rest).map (Text.utf8 [c] ++ ·)

/-- The characters of a tag, percent signs undone. -/
def readTagText (wide : Bool) (c : Cursor) : Except Fault (String × Cursor) :=
  let (cs, behind) := c.span (isTagChar wide)
  match (unescapePercent? cs).bind Text.decode? with
  | some text => .ok (String.ofList text, behind)
  | none => .error ⟨.badTag, c.mark⟩

/-- The characters of a tag, of which there must be some. -/
def readTagUri (wide : Bool) (c : Cursor) : Except Fault (String × Cursor) := do
  let (uri, behind) ← readTagText wide c
  if uri.isEmpty then throw ⟨.badTag, c.mark⟩ else pure (uri, behind)

/-- A named handle `!name!`, if one stands here: behind its first exclamation mark. -/
def readHandle? (c : Cursor) : Option (String × Cursor) :=
  let (name, behind) := c.span isNameChar
  if !name.isEmpty && behind.at (· == '!') then
    some (String.ofList ('!' :: name ++ ['!']), behind.next)
  else if name.isEmpty && behind.at (· == '!') then some ("!!", behind.next)
  else none

/-- A tag behind its exclamation mark: its handle and suffix. -/
def readTag (flow : Bool) (c : Cursor) : Except Fault ((String × String) × Cursor) := do
  let (tag, behind) ←
    if c.at (· == '<') then do
      let (uri, behind) ← readTagUri true c.next
      if behind.at (· == '>') then pure (("", uri), behind.next)
      else throw ⟨.badTag, behind.mark⟩
    else
      match readHandle? c with
      | some (handle, behind) => do
        let (suffix, behind) ← readTagUri false behind
        pure ((handle, suffix), behind)
      | none => do
        let (suffix, behind) ← readTagText false c
        pure (if suffix.isEmpty then ("", "!") else ("!", suffix), behind)
  if atGap behind.rest || (flow && behind.at (· == ',')) then pure (tag, behind)
  else throw ⟨.badTag, behind.mark⟩

/-! ### Directives -/

/-- A number of a version: at most nine digits. -/
def readVersionNumber (c : Cursor) : Except Fault (Nat × Cursor) :=
  let (digits, behind) := c.span Text.isDigit
  match Text.numeral? 10 digits with
  | some n =>
    if digits.isEmpty || 9 < digits.length then .error ⟨.badDirective, c.mark⟩ else .ok (n, behind)
  | none => .error ⟨.badDirective, c.mark⟩

/-- The version that a directive asks for. -/
def readVersion (c : Cursor) : Except Fault (TokenKind × Cursor) := do
  let (major, c) ← readVersionNumber c.skipBlanks
  if !c.at (· == '.') then throw ⟨.badDirective, c.mark⟩
  let (minor, c) ← readVersionNumber c.next
  pure (.version major minor, c)

/-- The handle and the text that a directive lets it stand for. -/
def readTagDirective (c : Cursor) : Except Fault (TokenKind × Cursor) := do
  let c := c.skipBlanks
  if !c.at (· == '!') then throw ⟨.badDirective, c.mark⟩
  let (handle, c) ←
    match readHandle? c.next with
    | some r => pure r
    | none => if c.next.at isNameChar then throw ⟨.badDirective, c.mark⟩ else pure ("!", c.next)
  if !c.at isBlank then throw ⟨.badDirective, c.mark⟩
  let (uri, c) ← readTagUri true c.skipBlanks
  if !atGap c.rest then throw ⟨.badDirective, c.mark⟩
  pure (.tagDirective handle uri, c)

/-- A directive behind its percent sign, up to the end of its line. -/
def readDirective (c : Cursor) : Except Fault (TokenKind × Cursor) := do
  let (name, c) := c.span isNameChar
  if !atGap c.rest then throw ⟨.badDirective, c.mark⟩
  let (kind, c) ←
    match String.ofList name with
    | "YAML" => readVersion c
    | "TAG" => readTagDirective c
    | _ => throw ⟨.badDirective, c.mark⟩
  let c ← skipLineEnd .badDirective c
  pure (kind, c)

end CacheWarden.Yaml
