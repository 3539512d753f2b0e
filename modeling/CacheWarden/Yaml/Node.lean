import CacheWarden.Yaml.Token.Reader
/-!
The one document that a text holds, as a tree of nodes.

An alias names a node by number, because the node may be one that is still being
read: a collection can hold an alias of itself.  The document keeps the anchored
nodes beside the tree.

A fault breaks the reading off.  The nodes in front of it are a document too, in
which all that is still open ends where the fault is.
-/

namespace CacheWarden.Yaml

/-- A node, with the place where it starts.  A text that leaves a value out has an empty
plain scalar there. -/
inductive Node where
  | scalar (mark : Mark) (tag : Option String) (text : String) (style : Style)
  | sequence (mark : Mark) (items : List Node)
  | mapping (mark : Mark) (entries : List (Node × Node))
  | alias (mark : Mark) (target : Nat)
deriving Repr, Inhabited

/-- A document: its tree, and the nodes that aliases name. -/
structure Document where
  root : Node
  anchored : List (Nat × Node)
deriving Repr, Inhabited

/-! ### Reading -/

/-- What is known while nodes are made of tokens. -/
structure Composer where
  /-- The tokens that are left. -/
  tokens : List Token
  /-- What tag handles stand for. -/
  handles : List (String × String)
  /-- Anchors by name, latest first. -/
  anchors : List (String × Nat)
  /-- How many anchors there were. -/
  count : Nat
  /-- The anchored nodes that are complete. -/
  anchored : List (Nat × Node)
  /-- What the reading broke off at. -/
  fault : Option Fault

/-- A step of reading nodes. -/
abbrev Compose := StateM Composer

/-- The next token. -/
def peek : Compose Token := do
  return (← get).tokens.headD default

/-- Leaves the next token behind. -/
def skipToken : Compose Unit :=
  modify fun s => { s with tokens := s.tokens.tail }

/-- The next token is of one of some kinds. -/
def nextIs (kinds : List TokenKind) : Compose Bool := do
  return kinds.contains (← peek).kind

/-- Breaks the reading off: no token is left, and what is open ends here. -/
def breakOff (problem : Problem) (mark : Mark) : Compose Unit :=
  modify fun s => { s with tokens := [], fault := s.fault <|> some ⟨problem, mark⟩ }

/-- The next token fits nowhere, and this stands in its place. -/
def unexpected {α : Type} (a : α) : Compose α := do
  breakOff .unexpectedToken (← peek).start
  return a

/-- The value that was left out at a place. -/
def emptyNode (mark : Mark) : Node :=
  .scalar mark none "" .plain

/-- What a tag stands for. -/
def resolveTag (handle suffix : String) (mark : Mark) : Compose String := do
  if handle.isEmpty then return suffix
  match (← get).handles.lookup handle with
  | some text => return text ++ suffix
  | none =>
    breakOff .undefinedTagHandle mark
    return suffix

/-- The tag in front of a node, if there is one. -/
def readNodeTag? : Compose (Option String) := do
  let t ← peek
  match t.kind with
  | .tag handle suffix =>
    skipToken
    return some (← resolveTag handle suffix t.start)
  | _ => return none

/-- The anchor in front of a node, if there is one. -/
def readNodeAnchor? : Compose (Option String) := do
  match (← peek).kind with
  | .anchor name =>
    skipToken
    return some name
  | _ => return none

/-- The anchor and the tag in front of a node, in either order. -/
def readProperties : Compose (Option String × Option String) := do
  match ← readNodeAnchor? with
  | some name => return (some name, ← readNodeTag?)
  | none =>
    let tag ← readNodeTag?
    return (← readNodeAnchor?, tag)

/-- Numbers an anchor. -/
def addAnchor (name : Option String) : Compose (Option Nat) := do
  match name with
  | none => return none
  | some name =>
    let n := (← get).count
    modify fun s => { s with anchors := (name, n) :: s.anchors, count := n + 1 }
    return some n

/-- Keeps an anchored node. -/
def keepNode (number : Option Nat) (node : Node) : Compose Node := do
  match number with
  | none => return node
  | some n =>
    modify fun s => { s with anchored := (n, node) :: s.anchored }
    return node

/-- The tag `!` says only that a scalar is what it is written as. -/
def scalarTag (tag : Option String) : Option String :=
  tag.filter (· != "!")

mutual

/-- A node.  `block` admits block collections, `indentless` a block sequence at the column of
the mapping around it.  `fuel` bounds how many of these readers are at work at once. -/
def readNode (block indentless : Bool) : (fuel : Nat) → Compose Node
  | 0 => unexpected (emptyNode .start)
  | fuel + 1 => do
    let first ← peek
    if let .alias name := first.kind then
      skipToken
      match (← get).anchors.lookup name with
      | some n => return .alias first.start n
      | none =>
        breakOff .unknownAlias first.start
        return emptyNode first.start
    let (anchor, tag) ← readProperties
    let number ← addAnchor anchor
    let node ← readContent block indentless first.start anchor.isSome tag fuel
    keepNode number node

/-- A node behind its anchor and its tag; with either, it may be empty. -/
def readContent (block indentless : Bool) (mark : Mark) (anchored : Bool) (tag : Option String) :
    (fuel : Nat) → Compose Node
  | 0 => unexpected (emptyNode mark)
  | fuel + 1 => do
    match (← peek).kind with
    | .scalar text style =>
      skipToken
      return .scalar mark (scalarTag tag) text style
    | .flowSequence =>
      skipToken
      return .sequence mark (← readFlowSequence true fuel)
    | .flowMapping =>
      skipToken
      return .mapping mark (← readFlowMapping true fuel)
    | kind =>
      if indentless && kind = .blockEntry then
        return .sequence mark (← readIndentless fuel)
      else if block && kind = .blockSequence then
        skipToken
        return .sequence mark (← readBlockSequence fuel)
      else if block && kind = .blockMapping then
        skipToken
        return .mapping mark (← readBlockMapping fuel)
      else if anchored || tag.isSome then
        return .scalar mark tag "" .plain
      else unexpected (emptyNode mark)

/-- A node, or an empty one at `mark` in front of a token that cannot start one. -/
def readNodeUnless (block indentless : Bool) (stops : List TokenKind) (mark : Mark) :
    (fuel : Nat) → Compose Node
  | 0 => unexpected (emptyNode mark)
  | fuel + 1 => do
    if ← nextIs stops then return emptyNode mark
    else readNode block indentless fuel

/-- The entries of a block sequence and its end. -/
def readBlockSequence : (fuel : Nat) → Compose (List Node)
  | 0 => unexpected []
  | fuel + 1 => do
    let t ← peek
    match t.kind with
    | .blockEntry =>
      skipToken
      let item ← readNodeUnless true false [.blockEntry, .blockEnd] t.stop fuel
      return item :: (← readBlockSequence fuel)
    | .blockEnd =>
      skipToken
      return []
    | _ => unexpected []

/-- The entries of a block sequence that no indentation ends. -/
def readIndentless : (fuel : Nat) → Compose (List Node)
  | 0 => unexpected []
  | fuel + 1 => do
    let t ← peek
    match t.kind with
    | .blockEntry =>
      skipToken
      let item ← readNodeUnless true false [.blockEntry, .key, .value, .blockEnd] t.stop fuel
      return item :: (← readIndentless fuel)
    | _ => return []

/-- The entries of a block mapping and its end. -/
def readBlockMapping : (fuel : Nat) → Compose (List (Node × Node))
  | 0 => unexpected []
  | fuel + 1 => do
    let t ← peek
    match t.kind with
    | .key =>
      skipToken
      let key ← readNodeUnless true true [.key, .value, .blockEnd] t.stop fuel
      let v ← peek
      if v.kind = .value then
        skipToken
        let value ← readNodeUnless true true [.key, .value, .blockEnd] v.stop fuel
        return (key, value) :: (← readBlockMapping fuel)
      else return (key, emptyNode v.start) :: (← readBlockMapping fuel)
    | .blockEnd =>
      skipToken
      return []
    | _ => unexpected []

/-- The value behind a key in a flow collection, or an empty one if there is none. -/
def readFlowValue (stops : List TokenKind) : (fuel : Nat) → Compose Node
  | 0 => unexpected (emptyNode .start)
  | fuel + 1 => do
    if (← peek).kind = .value then skipToken
    else return emptyNode (← peek).start
    readNodeUnless false false stops (← peek).start fuel

/-- The entries of a flow sequence and its end.  An entry with a key is a mapping of its own. -/
def readFlowSequence (first : Bool) : (fuel : Nat) → Compose (List Node)
  | 0 => unexpected []
  | fuel + 1 => do
    if (← peek).kind = .flowSequenceEnd then
      skipToken
      return []
    if !first then
      if (← peek).kind = .flowEntry then skipToken else return ← unexpected []
    let t ← peek
    match t.kind with
    | .flowSequenceEnd =>
      skipToken
      return []
    | .key =>
      skipToken
      let k ← peek
      let key ←
        if [.value, .flowEntry, .flowSequenceEnd].contains k.kind then do
          skipToken
          pure (emptyNode k.stop)
        else readNode false false fuel
      let value ← readFlowValue [.flowEntry, .flowSequenceEnd] fuel
      return .mapping t.start [(key, value)] :: (← readFlowSequence false fuel)
    | _ =>
      let item ← readNode false false fuel
      return item :: (← readFlowSequence false fuel)

/-- The entries of a flow mapping and its end.  A node that is no key stands for one without
a value. -/
def readFlowMapping (first : Bool) : (fuel : Nat) → Compose (List (Node × Node))
  | 0 => unexpected []
  | fuel + 1 => do
    if (← peek).kind = .flowMappingEnd then
      skipToken
      return []
    if !first then
      if (← peek).kind = .flowEntry then skipToken else return ← unexpected []
    match (← peek).kind with
    | .flowMappingEnd =>
      skipToken
      return []
    | .key =>
      skipToken
      let key ←
        readNodeUnless false false [.value, .flowEntry, .flowMappingEnd] (← peek).start fuel
      let value ← readFlowValue [.flowEntry, .flowMappingEnd] fuel
      return (key, value) :: (← readFlowMapping false fuel)
    | _ =>
      let key ← readNode false false fuel
      let value := emptyNode (← peek).start
      return (key, value) :: (← readFlowMapping false fuel)

end

/-! ### The document -/

/-- The directives in front of a document: at most one version, and each handle once. -/
def readDirectives (versioned : Bool) (handles : List (String × String)) :
    List Token → Except Fault (List (String × String) × List Token)
  | [] => .ok (handles, [])
  | t :: rest =>
    match t.kind with
    | .version major minor =>
      if versioned || major != 1 || !(minor = 1 ∨ minor = 2) then .error ⟨.badDirective, t.start⟩
      else readDirectives true handles rest
    | .tagDirective handle text =>
      if (handles.lookup handle).isSome then .error ⟨.badDirective, t.start⟩
      else readDirectives versioned ((handle, text) :: handles) rest
    | _ => .ok (handles, t :: rest)

/-- The handles that every document knows, unless it gives them a meaning of its own. -/
def defaultHandles : List (String × String) :=
  [("!", "!"), ("!!", "tag:yaml.org,2002:")]

/-- What is known in front of the first node. -/
def Composer.start (handles : List (String × String)) (tokens : List Token) : Composer :=
  ⟨tokens, handles ++ defaultHandles, [], 0, [], none⟩

/-- The root, which is empty if nothing stands between the marks around the document. -/
def readRoot (fuel : Nat) : Compose Node := do
  let t ← peek
  match t.kind with
  | .version _ _ | .tagDirective _ _ | .documentStart | .documentEnd | .streamEnd =>
    return emptyNode t.start
  | _ => readNode true false fuel

/-- What follows the document, other than marks of its end. -/
def more? : List Token → Option Fault
  | [] => none
  | t :: rest =>
    match t.kind with
    | .documentEnd => more? rest
    | .streamEnd => none
    | _ => some ⟨.secondDocument, t.start⟩

/-- The document with a root, whole unless the reading broke off or more follows. -/
def Composer.document (s : Composer) (root : Node) : Except (Broken Document) Document :=
  match s.fault <|> more? s.tokens with
  | none => .ok ⟨root, s.anchored⟩
  | some fault => .error ⟨fault, ⟨root, s.anchored⟩⟩

/-- The document that tokens stand for.  Each reader that calls another leaves a token behind
within four calls. -/
def Document.ofTokens (tokens : List Token) : Except (Broken Document) Document := do
  let empty : Document := ⟨emptyNode .start, []⟩
  let (handles, rest) ← (readDirectives false [] tokens).mapError (Broken.mk · empty)
  let bare := rest.length = tokens.length
  let first := rest.headD default
  let content ←
    if first.kind = .documentStart then pure rest.tail
    else if bare && first.kind != .documentEnd then pure rest
    else throw ⟨⟨.unexpectedToken, first.start⟩, empty⟩
  let (root, s) := (readRoot (5 * tokens.length + 8)).run (.start handles content)
  s.document root

/-- The one document of a text. -/
def parse (text : String) : Except (Broken Document) Document :=
  match tokens text with
  | .ok ts => Document.ofTokens ts
  | .error b => .error ⟨b.fault, upToFault (Document.ofTokens b.front)⟩

/-- The node that aliases name by a number. -/
def Document.target? (d : Document) (n : Nat) : Option Node :=
  d.anchored.lookup n

end CacheWarden.Yaml
