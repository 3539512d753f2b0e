import CacheWarden.Json.Fault
import CacheWarden.Json.Value
import CacheWarden.Text.Utf8
/-!
Reading JSON from bytes.  Each reader takes what it needs off the front and gives
the rest.  Lists and objects may nest 127 levels deep; the depth still allowed is
an argument, and the reading of values recurses on it.  A string ends before its
bytes are checked to be UTF-8, so an unfinished string is told as such.
-/

namespace CacheWarden.Json

open Text

/-- A reader gives what stands at the front of some bytes, and the bytes behind it. -/
abbrev Reader (α : Type) := List UInt8 → Except Fault (α × List UInt8)

/-- A fault that shows here. -/
def failHere {α : Type} (cause : Cause) (rest : List UInt8) : Except Fault α :=
  .error ⟨cause, rest.length⟩

/-- A fault that shows with the next byte, or at the end. -/
def failNext {α : Type} (cause : Cause) (rest : List UInt8) : Except Fault α :=
  .error ⟨cause, rest.length - 1⟩

/-- Space, tab, line feed or carriage return. -/
def isSpace (b : UInt8) : Bool :=
  b == 0x20 || b == 0x0A || b == 0x09 || b == 0x0D

/-- The bytes behind leading white space. -/
def skipSpace (bytes : List UInt8) : List UInt8 :=
  bytes.dropWhile isSpace

/-- The value of a decimal digit. -/
def digit? (b : UInt8) : Option Nat :=
  if 0x30 ≤ b.toNat ∧ b.toNat ≤ 0x39 then some (b.toNat - 0x30) else none

/-! ### Literals -/

/-- The rest of a literal whose first letter was read. -/
def readLiteral (value : Value) : List UInt8 → Reader Value
  | [], rest => .ok (value, rest)
  | _ :: _, [] => failHere .endInValue []
  | w :: word, b :: rest =>
    if b = w then readLiteral value word rest else failHere .expectedLiteral rest

/-! ### Numbers

A number without fraction and power of ten that fits 64 bits is exact.  Any other
is a double: the leading digits that fit an unsigned 64-bit number, scaled by one
multiplication with or division by a power of ten. -/

/-- The significand has no room for one more digit. -/
def overflows (n d : Nat) : Bool :=
  n * 10 + d > 18446744073709551615

/-- A power of ten as a double. -/
def powerOfTen (n : Nat) : Float :=
  Float.ofScientific 1 false n

/-- Scales down while the power of ten is out of the doubles' range.  A significand of 64 bits
is zero after three rounds. -/
def scaleDown : Nat → Float → Int → Float
  | 0, f, _ => f
  | fuel + 1, f, e =>
    if f == 0.0 then f
    else if -308 ≤ e then f / powerOfTen (-e).toNat
    else scaleDown fuel (f / powerOfTen 308) (e + 308)

/-- A double from a sign, a significand and a power of ten; `none` if it is too large. -/
def double? (negative : Bool) (significand : Nat) (e : Int) : Option Number :=
  let f := Float.ofScientific significand false 0
  let scaled : Option Float :=
    if 0 ≤ e then
      if e ≤ 308 then
        let g := f * powerOfTen e.toNat
        if g.isInf then none else some g
      else if significand = 0 then some f else none
    else some (scaleDown 4 f e)
  scaled.map fun g => .double (if negative then -g else g).toBits

/-- A double, or a fault behind the number. -/
def readDouble (negative : Bool) (significand : Nat) (e : Int) (rest : List UInt8) :
    Except Fault (Number × List UInt8) :=
  match double? negative significand e with
  | some n => .ok (n, rest)
  | none => failHere .numberOutOfRange rest

/-- The rest behind leading digits. -/
def skipDigits (bytes : List UInt8) : List UInt8 :=
  bytes.dropWhile fun b => (digit? b).isSome

/-- The largest power of ten that is counted. -/
def powerLimit : Nat := 2147483647

/-- The digits of a power of ten, in front of which `power` was read. -/
def readPowerDigits (negative : Bool) (significand : Nat) (e : Int) (down : Bool) (power : Nat) :
    Reader Number
  | [] => finish []
  | b :: rest =>
    match digit? b with
    | none => finish (b :: rest)
    | some d =>
      if power * 10 + d > powerLimit then
        if significand ≠ 0 ∧ !down then failHere .numberOutOfRange rest
        else .ok (.double (if negative then (-0.0 : Float) else 0.0).toBits, skipDigits rest)
      else readPowerDigits negative significand e down (power * 10 + d) rest
where
  /-- All digits are read. -/
  finish (rest : List UInt8) : Except Fault (Number × List UInt8) :=
    readDouble negative significand (if down then e - power else e + power) rest

/-- A power of ten, behind its letter. -/
def readPower (negative : Bool) (significand : Nat) (e : Int) (bytes : List UInt8) :
    Except Fault (Number × List UInt8) :=
  let (down, bytes) : Bool × List UInt8 :=
    match bytes with
    | 0x2B :: rest => (false, rest)
    | 0x2D :: rest => (true, rest)
    | _ => (false, bytes)
  match bytes with
  | [] => failHere .endInValue []
  | b :: rest =>
    match digit? b with
    | none => failHere .invalidNumber rest
    | some d => readPowerDigits negative significand e down d rest

/-- What may follow the digits of a double: a power of ten. -/
def readTail (negative : Bool) (significand : Nat) (e : Int) : Reader Number
  | [] => readDouble negative significand e []
  | b :: rest =>
    if b = 0x65 ∨ b = 0x45 then readPower negative significand e rest
    else readDouble negative significand e (b :: rest)

/-- The digits of a fraction; `seen` tells that there was one.  Digits that the significand
has no room for are dropped. -/
def readFraction (negative : Bool) (significand : Nat) (e : Int) (seen : Bool) :
    Reader Number
  | [] => if seen then readTail negative significand e [] else failNext .endInValue []
  | b :: rest =>
    match digit? b with
    | none =>
      if seen then readTail negative significand e (b :: rest)
      else failNext .invalidNumber (b :: rest)
    | some d =>
      if overflows significand d then readTail negative significand e (skipDigits rest)
      else readFraction negative (significand * 10 + d) (e - 1) true rest

/-- An integer with more digits than the significand has room for. -/
def readLong (negative : Bool) (significand : Nat) (dropped : Nat) : Reader Number
  | [] => readTail negative significand dropped []
  | b :: rest =>
    if (digit? b).isSome then readLong negative significand (dropped + 1) rest
    else if b = 0x2E then readFraction negative significand dropped false rest
    else readTail negative significand dropped (b :: rest)

/-- A whole number: exact if it fits 64 bits with its sign; a negative zero is a double. -/
def wholeNumber (negative : Bool) (n : Nat) : Number :=
  if negative then
    if 0 < n ∧ n ≤ 9223372036854775808 then .int (-(n : Int))
    else .double (-(Float.ofScientific n false 0)).toBits
  else .int n

/-- What may follow the digits of an integer. -/
def readWhole (negative : Bool) (n : Nat) : Reader Number
  | [] => .ok (wholeNumber negative n, [])
  | b :: rest =>
    if b = 0x2E then readFraction negative n 0 false rest
    else if b = 0x65 ∨ b = 0x45 then readPower negative n 0 rest
    else .ok (wholeNumber negative n, b :: rest)

/-- The digits of an integer, in front of which `n` was read. -/
def readDigits (negative : Bool) (n : Nat) : Reader Number
  | [] => readWhole negative n []
  | b :: rest =>
    match digit? b with
    | none => readWhole negative n (b :: rest)
    | some d =>
      if overflows n d then readLong negative n 1 rest else readDigits negative (n * 10 + d) rest

/-- A number behind its sign.  A leading zero stands alone. -/
def readUnsigned (negative : Bool) : Reader Number
  | [] => failHere .endInValue []
  | b :: rest =>
    match digit? b with
    | none => failHere .invalidNumber rest
    | some 0 =>
      match rest with
      | c :: _ =>
        if (digit? c).isSome then failNext .invalidNumber rest else readWhole negative 0 rest
      | [] => readWhole negative 0 []
    | some d => readDigits negative d rest

/-! ### Strings -/

/-- The value of a hexadecimal digit. -/
def hexDigit? (b : UInt8) : Option Nat :=
  let n := b.toNat
  if 0x30 ≤ n ∧ n ≤ 0x39 then some (n - 0x30)
  else if 0x61 ≤ n ∧ n ≤ 0x66 then some (n - 0x57)
  else if 0x41 ≤ n ∧ n ≤ 0x46 then some (n - 0x37)
  else none

/-- Four hexadecimal digits. -/
def readUnit : Reader Nat
  | a :: b :: c :: d :: rest =>
    match hexDigit? a, hexDigit? b, hexDigit? c, hexDigit? d with
    | some w, some x, some y, some z => .ok (w * 4096 + x * 256 + y * 16 + z, rest)
    | _, _, _, _ => failHere .invalidEscape rest
  | _ => failHere .endInString []

/-- A leading surrogate. -/
def isLeading (n : Nat) : Bool := 0xD800 ≤ n && n ≤ 0xDBFF

/-- A trailing surrogate. -/
def isTrailing (n : Nat) : Bool := 0xDC00 ≤ n && n ≤ 0xDFFF

/-- The trailing half of a surrogate pair, from its backslash on. -/
def readPair (lead : Nat) : Reader Char
  | [] => failHere .endInString []
  | b :: rest =>
    if b ≠ 0x5C then failHere .unfinishedPair rest
    else
      match rest with
      | [] => failHere .endInString []
      | u :: rest =>
        if u ≠ 0x75 then failHere .unfinishedPair rest
        else do
          let (trail, rest) ← readUnit rest
          if isTrailing trail then
            pure (Char.ofNat (0x10000 + (lead - 0xD800) * 0x400 + (trail - 0xDC00)), rest)
          else failHere .loneSurrogate rest

/-- An escape by code unit, behind its letter. -/
def readCodeUnit (bytes : List UInt8) : Except Fault (Char × List UInt8) := do
  let (n, rest) ← readUnit bytes
  if isTrailing n then failHere .loneSurrogate rest
  else if isLeading n then readPair n rest
  else pure (Char.ofNat n, rest)

/-- An escape, behind its backslash. -/
def readEscape : Reader Char
  | [] => failHere .endInString []
  | b :: rest =>
    if b = 0x22 then .ok ('"', rest)
    else if b = 0x5C then .ok ('\\', rest)
    else if b = 0x2F then .ok ('/', rest)
    else if b = 0x62 then .ok ('\x08', rest)
    else if b = 0x66 then .ok ('\x0c', rest)
    else if b = 0x6E then .ok ('\n', rest)
    else if b = 0x72 then .ok ('\r', rest)
    else if b = 0x74 then .ok ('\t', rest)
    else if b = 0x75 then readCodeUnit rest
    else failHere .invalidEscape rest

/-- The characters of a string up to its closing quote.  Every round takes a byte, so the
length of the bytes is fuel enough. -/
def readChars : Nat → Reader (List Char)
  | 0, _ => failHere .endInString []
  | _ + 1, [] => failHere .endInString []
  | fuel + 1, b :: rest =>
    if b = 0x22 then .ok ([], rest)
    else if b = 0x5C then do
      let (c, rest) ← readEscape rest
      let (cs, rest) ← readChars fuel rest
      pure (c :: cs, rest)
    else if b.toNat < 0x20 then failHere .controlCharacter rest
    else
      match decodeChar? (b :: rest) with
      | some (c, rest) => do
        let (cs, rest) ← readChars fuel rest
        pure (c :: cs, rest)
      | none =>
        match readChars fuel rest with
        | .error f =>
          if f.cause = .invalidCodePoint then failHere .invalidCodePoint rest else .error f
        | .ok _ => failHere .invalidCodePoint rest

/-- A string behind its opening quote. -/
def readString (bytes : List UInt8) : Except Fault (String × List UInt8) := do
  let (cs, rest) ← readChars (bytes.length + 1) bytes
  pure (String.ofList cs, rest)

/-! ### Lists and objects -/

/-- The items of a list, from the first of them on. -/
def readItems (item : Reader Value) : Nat → Reader (List Value)
  | 0, bytes => failNext .endInList bytes
  | fuel + 1, bytes => do
    let (v, rest) ← item bytes
    match skipSpace rest with
    | [] => failNext .endInList []
    | b :: rest =>
      if b = 0x5D then pure ([v], rest)
      else if b = 0x2C then
        match skipSpace rest with
        | [] => failNext .endInValue []
        | c :: rest =>
          if c = 0x5D then failNext .trailingComma (c :: rest)
          else do
            let (vs, rest) ← readItems item fuel (c :: rest)
            pure (v :: vs, rest)
      else failNext .expectedListSeparator (b :: rest)

/-- A list behind its opening bracket. -/
def readList (item : Reader Value) (bytes : List UInt8) : Except Fault (Value × List UInt8) :=
  match skipSpace bytes with
  | [] => failNext .endInList []
  | b :: rest =>
    if b = 0x5D then .ok (.list [], rest)
    else do
      let (vs, rest) ← readItems item (bytes.length + 1) (b :: rest)
      pure (.list vs, rest)

/-- One field, from its name on. -/
def readField (item : Reader Value) : Reader (String × Value)
  | [] => failNext .endInValue []
  | b :: rest =>
    if b ≠ 0x22 then failNext .keyNotString (b :: rest)
    else do
      let (name, rest) ← readString rest
      match skipSpace rest with
      | [] => failNext .endInObject []
      | c :: rest =>
        if c ≠ 0x3A then failNext .expectedColon (c :: rest)
        else do
          let (v, rest) ← item rest
          pure ((name, v), rest)

/-- The fields of an object, from the first of them on. -/
def readFields (item : Reader Value) : Nat → Reader (List (String × Value))
  | 0, bytes => failNext .endInObject bytes
  | fuel + 1, bytes => do
    let (f, rest) ← readField item bytes
    match skipSpace rest with
    | [] => failNext .endInObject []
    | b :: rest =>
      if b = 0x7D then pure ([f], rest)
      else if b = 0x2C then
        match skipSpace rest with
        | [] => failNext .endInValue []
        | c :: rest =>
          if c = 0x7D then failNext .trailingComma (c :: rest)
          else do
            let (fs, rest) ← readFields item fuel (c :: rest)
            pure (f :: fs, rest)
      else failNext .expectedObjectSeparator (b :: rest)

/-- An object behind its opening brace.  Of fields with one name the last counts. -/
def readObject (item : Reader Value) (bytes : List UInt8) : Except Fault (Value × List UInt8) :=
  match skipSpace bytes with
  | [] => failNext .endInObject []
  | b :: rest =>
    if b = 0x7D then .ok (.object [], rest)
    else do
      let (fs, rest) ← readFields item (bytes.length + 1) (b :: rest)
      pure (.object (Keyed.ofList fs), rest)

/-! ### Values -/

/-- A value that is neither a list nor an object. -/
def readScalar (bytes : List UInt8) : Except Fault (Value × List UInt8) :=
  match bytes with
  | [] => failNext .endInValue []
  | b :: rest =>
    if b = 0x6E then readLiteral .null [0x75, 0x6C, 0x6C] rest
    else if b = 0x74 then readLiteral (.bool true) [0x72, 0x75, 0x65] rest
    else if b = 0x66 then readLiteral (.bool false) [0x61, 0x6C, 0x73, 0x65] rest
    else if b = 0x22 then (readString rest).map fun r => (.string r.1, r.2)
    else if b = 0x2D then (readUnsigned true rest).map fun r => (.number r.1, r.2)
    else if (digit? b).isSome then (readUnsigned false bytes).map fun r => (.number r.1, r.2)
    else failNext .expectedValue bytes

/-- A value with the depth of lists and objects that it may still open. -/
def readValue : Nat → Reader Value
  | 0, bytes =>
    match skipSpace bytes with
    | b :: rest =>
      if b = 0x5B ∨ b = 0x7B then failNext .tooDeep (b :: rest) else readScalar (b :: rest)
    | [] => readScalar []
  | depth + 1, bytes =>
    match skipSpace bytes with
    | b :: rest =>
      if b = 0x5B then readList (readValue depth) rest
      else if b = 0x7B then readObject (readValue depth) rest
      else readScalar (b :: rest)
    | [] => readScalar []

/-- How many lists and objects may stand inside one another. -/
def depthLimit : Nat := 127

/-- The value that a whole text denotes. -/
def parse (bytes : List UInt8) : Except SyntaxError Value :=
  match readValue depthLimit bytes with
  | .error f => .error (f.locate bytes)
  | .ok (v, rest) =>
    match skipSpace rest with
    | [] => .ok v
    | _ :: rest => .error (Fault.locate ⟨.trailingCharacters, rest.length⟩ bytes)

end CacheWarden.Json
