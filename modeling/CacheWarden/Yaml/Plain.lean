import CacheWarden.Decimal.Notation
import CacheWarden.Text.Quoted
import CacheWarden.Yaml.Node
/-!
What a scalar stands for if nothing says which type it should have.  A plain
scalar without a tag may be null, a boolean or a number; tags of the core schema
ask for one of these; all else is text.
-/

namespace CacheWarden.Yaml

open Text

/-- What a scalar stands for. -/
inductive Plain where
  | null
  | bool (value : Bool)
  | integer (value : Int)
  | float (bits : UInt64)
  | infinite (negative : Bool)
  | notANumber
  | text (value : String)
deriving DecidableEq, Repr, Inhabited

/-! ### Null and booleans -/

/-- The words for null; an empty scalar is null too, where no tag asks for the word. -/
def isNull (s : String) : Bool :=
  s == "null" || s == "Null" || s == "NULL" || s == "~"

/-- A boolean by its word. -/
def boolean? (s : String) : Option Bool :=
  if s = "true" ∨ s = "True" ∨ s = "TRUE" then some true
  else if s = "false" ∨ s = "False" ∨ s = "FALSE" then some false
  else none

/-! ### Integers -/

/-- A numeral that tells its base. -/
def based? : List Char → Option Nat
  | '0' :: 'x' :: ds => numeral? 16 ds
  | '0' :: 'o' :: ds => numeral? 8 ds
  | '0' :: 'b' :: ds => numeral? 2 ds
  | _ => none

/-- Digits behind a leading zero: text, not a number. -/
def isZeroLed : List Char → Bool
  | '0' :: d :: ds => (d :: ds).all isDigit
  | _ => false

/-- A numeral without a sign. -/
def natural? (cs : List Char) : Option Nat :=
  (based? cs).or (if isZeroLed cs then none else numeral? 10 cs)

/-- An integer of at most 128 bits. -/
def integer? : List Char → Option Int
  | '-' :: cs => (natural? cs).bind fun n => if n ≤ Nat.pow 2 127 then some (-(n : Int)) else none
  | '+' :: cs => (natural? cs).bind fun n => if n < Nat.pow 2 128 then some (n : Int) else none
  | cs => (natural? cs).bind fun n => if n < Nat.pow 2 128 then some (n : Int) else none

/-! ### Numbers with a point or a power of ten -/

/-- The power of ten behind its letter. -/
def power? : List Char → Option Int
  | [] => some 0
  | e :: cs =>
    if e = 'e' ∨ e = 'E' then
      match cs with
      | '-' :: ds => (numeral? 10 ds).map fun n => -(n : Int)
      | '+' :: ds => (numeral? 10 ds).map fun n => (n : Int)
      | ds => (numeral? 10 ds).map fun n => (n : Int)
    else none

/-- The double nearest to a decimal; `none` if it is too large.  No double but zero has its
leading digit 400 places from the point. -/
def nearestDouble? (negative : Bool) (digits : Nat) (power : Int) : Option UInt64 :=
  let leading := ((decimal digits).length : Int) + power
  let f : Float :=
    if digits = 0 ∨ leading < -400 then 0.0
    else if 400 < leading then 1.0 / 0.0
    else if power < 0 then Float.ofScientific digits true (-power).toNat
    else Float.ofScientific digits false power.toNat
  let signed := if negative then -f else f
  if signed.isFinite then some signed.toBits else none

/-- A decimal without a sign. -/
def decimal? (negative : Bool) (cs : List Char) : Option UInt64 :=
  let whole := cs.takeWhile isDigit
  let behind := cs.dropWhile isDigit
  let (places, behind) :=
    match behind with
    | '.' :: rest => (rest.takeWhile isDigit, rest.dropWhile isDigit)
    | _ => ([], behind)
  match numeral? 10 (whole ++ places), power? behind with
  | some digits, some power => nearestDouble? negative digits (power - places.length)
  | _, _ => none

/-- A number with a point or a power of ten, or infinity, or no number. -/
def float? (cs : List Char) : Option Plain :=
  let word := String.ofList (if cs.head? = some '+' then cs.tail else cs)
  let s := String.ofList cs
  if word = ".inf" ∨ word = ".Inf" ∨ word = ".INF" then some (.infinite false)
  else if s = "-.inf" ∨ s = "-.Inf" ∨ s = "-.INF" then some (.infinite true)
  else if s = ".nan" ∨ s = ".NaN" ∨ s = ".NAN" then some .notANumber
  else
    match cs with
    | '-' :: ds => (decimal? true ds).map .float
    | '+' :: ds => (decimal? false ds).map .float
    | ds => (decimal? false ds).map .float

/-! ### Scalars -/

/-- What a plain scalar without a tag stands for. -/
def Plain.ofText (s : String) : Plain :=
  let cs := s.toList
  let unsigned := if cs.head? = some '+' ∨ cs.head? = some '-' then cs.tail else cs
  if s.isEmpty || isNull s then .null
  else
    match boolean? s with
    | some b => .bool b
    | none =>
      match integer? cs with
      | some i => .integer i
      | none =>
        if isZeroLed unsigned then .text s
        else (float? cs).getD (.text s)

/-- The tags of the core schema. -/
def coreTag (name : String) : String := "tag:yaml.org,2002:" ++ name

/-- What a scalar stands for, or what its tag asks for in vain. -/
def Plain.ofScalar (tag : Option String) (text : String) (style : Style) :
    Except String Plain :=
  let asWritten : Plain := if style = .plain then .ofText text else .text text
  match tag with
  | none => .ok asWritten
  | some t =>
    if t = coreTag "bool" then
      match boolean? text with
      | some b => .ok (.bool b)
      | none => .error "a boolean"
    else if t = coreTag "int" then
      match integer? text.toList with
      | some i => .ok (.integer i)
      | none => .error "an integer"
    else if t = coreTag "float" then
      match float? text.toList with
      | some f => .ok f
      | none => .error "a float"
    else if t = coreTag "null" then
      if isNull text then .ok .null else .error "null"
    else if t.startsWith "!" then .ok asWritten
    else .ok (.text text)

/-- What a scalar stands for, in the words of a complaint about it. -/
def Plain.describe : Plain → String
  | .null => "unit value"
  | .bool b => "boolean " ++ ticked (if b then "true" else "false")
  | .integer i =>
    let text := "integer " ++ ticked (String.ofList (signedDecimal i))
    if i < -(Nat.pow 2 63 : Int) then text ++ " as i128"
    else if i < (Nat.pow 2 64 : Int) then text
    else text ++ " as u128"
  | .float bits =>
    "floating point " ++ ticked (String.ofList (Decimal.withPoint (Decimal.plainText bits)))
  | .infinite negative => "floating point " ++ ticked (if negative then "-inf" else "inf")
  | .notANumber => "floating point " ++ ticked "NaN"
  | .text s => "string " ++ quoted s
where
  /-- A text between grave accents. -/
  ticked (s : String) : String := "\x60" ++ s ++ "\x60"

end CacheWarden.Yaml
