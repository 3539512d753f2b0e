import CacheWarden.Decimal.Notation
import CacheWarden.Json.Value
/-!
JSON text: compact, fields in their order, strings raw but for quotes,
backslashes and control characters, doubles with the fewest digits that read
back.
-/

namespace CacheWarden.Json

open Text Decimal

/-- One character inside a string. -/
def escapeChar (c : Char) : List Char :=
  if c = '"' then ['\\', '"']
  else if c = '\\' then ['\\', '\\']
  else if c = '\x08' then ['\\', 'b']
  else if c = '\x0c' then ['\\', 'f']
  else if c = '\n' then ['\\', 'n']
  else if c = '\r' then ['\\', 'r']
  else if c = '\t' then ['\\', 't']
  else if c.toNat < 0x20 then
    ['\\', 'u', '0', '0', digitChar (c.toNat / 16), digitChar (c.toNat % 16)]
  else [c]

/-- A string between quotes. -/
def stringText (s : String) : List Char :=
  ['"'] ++ s.toList.flatMap escapeChar ++ ['"']

/-- A double: in full while its leading digit stands for a power of ten from -5 to 15,
always with a point, otherwise with a signed power of ten. -/
def doubleText (bits : UInt64) : List Char :=
  let d := shortest .toEven (Binary.ofBits bits)
  let text :=
    if d.digits = 0 then ['0', '.', '0']
    else if -5 ≤ d.leading ∧ d.leading < 16 then withPoint d.plain
    else d.scientific
  if isNegative bits then '-' :: text else text

/-- A number. -/
def Number.text : Number → List Char
  | .int i => signedDecimal i
  | .double bits => doubleText bits

mutual

/-- A value. -/
def Value.text : Value → List Char
  | .null => "null".toList
  | .bool true => "true".toList
  | .bool false => "false".toList
  | .number n => n.text
  | .string s => stringText s
  | .list items => ['['] ++ itemsText items ++ [']']
  | .object fields => ['\x7b'] ++ fieldsText fields ++ ['\x7d']

/-- The items of a list, separated by commas. -/
def itemsText : List Value → List Char
  | [] => []
  | [v] => v.text
  | v :: w :: rest => v.text ++ [','] ++ itemsText (w :: rest)

/-- The fields of an object, separated by commas. -/
def fieldsText : List (String × Value) → List Char
  | [] => []
  | [(name, v)] => stringText name ++ [':'] ++ v.text
  | (name, v) :: g :: rest => stringText name ++ [':'] ++ v.text ++ [','] ++ fieldsText (g :: rest)

end

/-- An object in which the members stand in an order of their own, each with its written value. -/
def membersText (members : List (String × List Char)) : List Char :=
  let texts := members.map fun m => stringText m.1 ++ ':' :: m.2
  '\x7b' :: (texts.intersperse [',']).flatten ++ ['\x7d']

/-- A value, or null. -/
def optionText {α : Type} (text : α → List Char) : Option α → List Char
  | none => "null".toList
  | some a => text a

/-- A boolean. -/
def boolText (b : Bool) : List Char := (Value.bool b).text

/-- The JSON text of a value. -/
def Value.render (v : Value) : String :=
  String.ofList v.text

end CacheWarden.Json
