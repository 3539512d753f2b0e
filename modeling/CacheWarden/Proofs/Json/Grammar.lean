import CacheWarden.Json.Value
import CacheWarden.Proofs.Keyed
import CacheWarden.Proofs.Text.Numeral
/-!
The grammar of JSON, on bytes.

`Written number depth bytes v` says that the bytes are one value, without white space
around it, in which lists and objects nest at most `depth` levels, and that they
denote `v`.  Which literals are numbers, and what they denote, is a parameter: the
whole grammar has any of them (`AnyLiteral`), and integers of 64 bits are exact
(`ExactLiteral`).  Nothing here reads: the relations say which bytes are which value,
and the readers are measured against them elsewhere.
-/

namespace CacheWarden.Json

open Text

/-- White space: spaces, tabs, line feeds and carriage returns. -/
def Space (bs : List UInt8) : Prop :=
  ∀ b ∈ bs, b = 0x20 ∨ b = 0x09 ∨ b = 0x0A ∨ b = 0x0D

/-! ### Numbers -/

/-- Decimal digits as bytes. -/
def digitsText (ds : List Nat) : List UInt8 := ds.map fun d => UInt8.ofNat (0x30 + d)

/-- Some decimal digits, at least one. -/
structure Digits (ds : List Nat) : Prop where
  nonempty : ds ≠ []
  decimal : ∀ d ∈ ds, d < 10

/-- The digits of a whole number: a leading zero stands alone. -/
structure Whole (ds : List Nat) : Prop extends Digits ds where
  leading : ds.head? = some 0 → ds = [0]

/-- The fraction of a number, if there is one. -/
inductive Fraction : List UInt8 → Prop
  | none : Fraction []
  | some {ds : List Nat} : Digits ds → Fraction (0x2E :: digitsText ds)

/-- The power of ten of a number, if there is one. -/
inductive Power : List UInt8 → Prop
  | none : Power []
  | some {letter : UInt8} {sign : List UInt8} {ds : List Nat} :
      letter = 0x65 ∨ letter = 0x45 → sign = [] ∨ sign = [0x2B] ∨ sign = [0x2D] → Digits ds →
        Power (letter :: (sign ++ digitsText ds))

/-- The sign of a number. -/
def minus (negative : Bool) : List UInt8 := if negative then [0x2D] else []

/-- A number with its sign. -/
def signed (negative : Bool) (n : Nat) : Int := if negative then -(n : Int) else n

/-- An integer of 64 bits, signed or unsigned. -/
def IsWord (i : Int) : Prop := -9223372036854775808 ≤ i ∧ i ≤ 18446744073709551615

/-- The literal of an integer of 64 bits other than minus zero denotes that integer. -/
def ExactLiteral (bs : List UInt8) (n : Number) : Prop :=
  ∃ negative ds, Whole ds ∧ bs = minus negative ++ digitsText ds ∧
    (negative → place 10 0 ds ≠ 0) ∧ IsWord (signed negative (place 10 0 ds)) ∧
    n = .int (signed negative (place 10 0 ds))

/-- Any literal of a number; what it denotes is said for the integers of 64 bits. -/
def AnyLiteral (bs : List UInt8) (n : Number) : Prop :=
  ∃ negative ds fraction power, Whole ds ∧ Fraction fraction ∧ Power power ∧
    bs = minus negative ++ (digitsText ds ++ (fraction ++ power)) ∧
    (fraction = [] → power = [] → (negative → place 10 0 ds ≠ 0) →
      IsWord (signed negative (place 10 0 ds)) → n = .int (signed negative (place 10 0 ds)))

/-! ### Strings -/

/-- A hexadecimal digit in either case. -/
inductive HexDigit : UInt8 → Nat → Prop
  | digit {n : Nat} : n < 10 → HexDigit (UInt8.ofNat (0x30 + n)) n
  | lower {n : Nat} : 10 ≤ n → n < 16 → HexDigit (UInt8.ofNat (0x57 + n)) n
  | upper {n : Nat} : 10 ≤ n → n < 16 → HexDigit (UInt8.ofNat (0x37 + n)) n

/-- A code unit by its four digits. -/
inductive CodeUnit : List UInt8 → Nat → Prop
  | mk {a b c d : UInt8} {w x y z : Nat} :
      HexDigit a w → HexDigit b x → HexDigit c y → HexDigit d z →
        CodeUnit [a, b, c, d] (w * 4096 + x * 256 + y * 16 + z)

/-- The escapes of one letter. -/
def shortEscapes : List (UInt8 × Char) :=
  [(0x22, '"'), (0x5C, '\\'), (0x2F, '/'), (0x62, '\x08'), (0x66, '\x0c'), (0x6E, '\n'),
   (0x72, '\r'), (0x74, '\t')]

/-- The inside of a string.  A character stands for itself in UTF-8 unless it is a quote, a
backslash or a control character; an escape by code unit is no surrogate, or a pair of them. -/
inductive Chars : List UInt8 → List Char → Prop
  | nil : Chars [] []
  | plain {c : Char} {bs : List UInt8} {cs : List Char} :
      0x20 ≤ c.toNat → c ≠ '"' → c ≠ '\\' → Chars bs cs →
        Chars (String.utf8EncodeChar c ++ bs) (c :: cs)
  | escape {b : UInt8} {c : Char} {bs : List UInt8} {cs : List Char} :
      (b, c) ∈ shortEscapes → Chars bs cs → Chars (0x5C :: b :: bs) (c :: cs)
  | unit {u bs : List UInt8} {n : Nat} {cs : List Char} :
      CodeUnit u n → ¬(0xD800 ≤ n ∧ n ≤ 0xDFFF) → Chars bs cs →
        Chars (0x5C :: 0x75 :: (u ++ bs)) (Char.ofNat n :: cs)
  | pair {u v bs : List UInt8} {m n : Nat} {cs : List Char} :
      CodeUnit u m → 0xD800 ≤ m ∧ m ≤ 0xDBFF → CodeUnit v n → 0xDC00 ≤ n ∧ n ≤ 0xDFFF →
        Chars bs cs →
          Chars (0x5C :: 0x75 :: (u ++ 0x5C :: 0x75 :: (v ++ bs)))
            (Char.ofNat (0x10000 + (m - 0xD800) * 0x400 + (n - 0xDC00)) :: cs)

/-! ### Values -/

/-- Things with commas between them, at least one. -/
inductive Items {α : Type} (item : List UInt8 → α → Prop) : List UInt8 → List α → Prop
  | last {a bs z : List UInt8} {x : α} :
      Space a → item bs x → Space z → Items item (a ++ (bs ++ z)) [x]
  | more {a bs z rest : List UInt8} {x : α} {xs : List α} :
      Space a → item bs x → Space z → Items item rest xs →
        Items item (a ++ (bs ++ (z ++ 0x2C :: rest))) (x :: xs)

/-- A field of an object: its name, and behind a colon its value. -/
inductive Field (item : List UInt8 → Value → Prop) : List UInt8 → String × Value → Prop
  | mk {name a z bs : List UInt8} {cs : List Char} {v : Value} :
      Chars name cs → Space a → Space z → item bs v →
        Field item (0x22 :: (name ++ 0x22 :: (a ++ 0x3A :: (z ++ bs)))) (String.ofList cs, v)

/-- A value that is neither a list nor an object. -/
inductive Scalar (number : List UInt8 → Number → Prop) : List UInt8 → Value → Prop
  | null : Scalar number [0x6E, 0x75, 0x6C, 0x6C] .null
  | true : Scalar number [0x74, 0x72, 0x75, 0x65] (.bool true)
  | false : Scalar number [0x66, 0x61, 0x6C, 0x73, 0x65] (.bool false)
  | number {bs : List UInt8} {n : Number} : number bs n → Scalar number bs (.number n)
  | string {bs : List UInt8} {cs : List Char} :
      Chars bs cs → Scalar number (0x22 :: (bs ++ [0x22])) (.string (String.ofList cs))

/-- A list or an object.  Of fields with one name the last counts. -/
inductive Nested (item : List UInt8 → Value → Prop) : List UInt8 → Value → Prop
  | emptyList {ws : List UInt8} : Space ws → Nested item (0x5B :: (ws ++ [0x5D])) (.list [])
  | list {bs : List UInt8} {vs : List Value} :
      Items item bs vs → Nested item (0x5B :: (bs ++ [0x5D])) (.list vs)
  | emptyObject {ws : List UInt8} : Space ws → Nested item (0x7B :: (ws ++ [0x7D])) (.object [])
  | object {bs : List UInt8} {fs m : List (String × Value)} :
      Items (Field item) bs fs → Keyed.Latest fs m →
        Nested item (0x7B :: (bs ++ [0x7D])) (.object m)

/-- A value in which lists and objects nest at most so many levels. -/
def Written (number : List UInt8 → Number → Prop) : Nat → List UInt8 → Value → Prop
  | 0 => Scalar number
  | depth + 1 => fun bs v => Scalar number bs v ∨ Nested (Written number depth) bs v

/-- A whole text: one value, with white space around it. -/
def IsText (number : List UInt8 → Number → Prop) (depth : Nat) (bytes : List UInt8) (v : Value) :
    Prop :=
  ∃ before bs behind, bytes = before ++ (bs ++ behind) ∧ Space before ∧ Space behind ∧
    Written number depth bs v

end CacheWarden.Json
