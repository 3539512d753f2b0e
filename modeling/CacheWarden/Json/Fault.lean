import CacheWarden.Text.Numeral
/-!
Why a text is not JSON, and where.  A fault is found with some bytes still to
come; their number fixes the place, which is told as a line and a column in
bytes.
-/

namespace CacheWarden.Json

/-- Why a text is not JSON. -/
inductive Cause where
  | endInValue
  | endInList
  | endInObject
  | endInString
  | expectedValue
  | expectedLiteral
  | expectedListSeparator
  | expectedObjectSeparator
  | expectedColon
  | keyNotString
  | trailingComma
  | trailingCharacters
  | tooDeep
  | invalidNumber
  | numberOutOfRange
  | invalidEscape
  | loneSurrogate
  | unfinishedPair
  | controlCharacter
  | invalidCodePoint
deriving DecidableEq, Repr

/-- The cause in words. -/
def Cause.message : Cause → String
  | .endInValue => "EOF while parsing a value"
  | .endInList => "EOF while parsing a list"
  | .endInObject => "EOF while parsing an object"
  | .endInString => "EOF while parsing a string"
  | .expectedValue => "expected value"
  | .expectedLiteral => "expected ident"
  | .expectedListSeparator => "expected `,` or `]`"
  | .expectedObjectSeparator => "expected `,` or `\x7d`"
  | .expectedColon => "expected `:`"
  | .keyNotString => "key must be a string"
  | .trailingComma => "trailing comma"
  | .trailingCharacters => "trailing characters"
  | .tooDeep => "recursion limit exceeded"
  | .invalidNumber => "invalid number"
  | .numberOutOfRange => "number out of range"
  | .invalidEscape => "invalid escape"
  | .loneSurrogate => "lone leading surrogate in hex escape"
  | .unfinishedPair => "unexpected end of hex escape"
  | .controlCharacter => "control character (\\u0000-\\u001F) found while parsing a string"
  | .invalidCodePoint => "invalid unicode code point"

/-- A cause, and how many bytes were left behind the place where it shows. -/
structure Fault where
  cause : Cause
  left : Nat
deriving DecidableEq, Repr

/-- A place in a text: a line from 1, and the bytes since its start. -/
structure Place where
  line : Nat
  column : Nat
deriving DecidableEq, Repr

/-- The place behind some bytes. -/
def Place.after (bytes : List UInt8) : Place :=
  bytes.foldl (fun p b => if b = 0x0A then ⟨p.line + 1, 0⟩ else ⟨p.line, p.column + 1⟩) ⟨1, 0⟩

/-- A fault of a whole text, in words. -/
structure SyntaxError where
  cause : Cause
  place : Place
deriving DecidableEq, Repr

/-- Where a fault lies in the text it was found in. -/
def Fault.locate (f : Fault) (bytes : List UInt8) : SyntaxError :=
  ⟨f.cause, Place.after (bytes.take (bytes.length - f.left))⟩

/-- The error in words. -/
def SyntaxError.message (e : SyntaxError) : String :=
  e.cause.message ++ " at line " ++ Text.ordinal e.place.line ++
    " column " ++ Text.ordinal e.place.column

end CacheWarden.Json
