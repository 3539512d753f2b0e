/-!
How alike two texts are, between 0 and 1: the more characters they share, and the
fewer of them stand in another order, the more.

A character of one text is shared if the other has it not far from the same place,
where "far" is half the longer text; each character is shared once.
-/

namespace CacheWarden.Text

/-- A character, and whether it is shared already. -/
abbrev Marked := Char × Bool

/-- Marks the first free occurrence of a character between two places of a text, the text's first
place being `place`. -/
def mark? (c : Char) (first last place : Nat) : List Marked → Option (List Marked)
  | [] => none
  | m :: ms =>
    if first ≤ place ∧ place ≤ last ∧ m = (c, false) then some ((c, true) :: ms)
    else (mark? c first last (place + 1) ms).map (m :: ·)

/-- The characters of a text that another one shares, in order, and the other text with the marks
of what is shared. -/
def share (reach place : Nat) : List Char → List Marked → List Char × List Marked
  | [], other => ([], other)
  | c :: cs, other =>
    match mark? c (place - reach) (place + reach) 0 other with
    | some other =>
      let (shared, other) := share reach (place + 1) cs other
      (c :: shared, other)
    | none => share reach (place + 1) cs other

/-- The likeness of two texts. -/
def likeness (a b : String) : Float :=
  let (a, b) := (a.toList, b.toList)
  let reach := max a.length b.length / 2 - 1
  let (shared, marked) := share reach 0 a (b.map (·, false))
  let others := (marked.filter (·.2)).map (·.1)
  let moved := (shared.zip others).countP fun p => p.1 != p.2
  let count := shared.length
  if count = 0 then 0
  else
    (count.toFloat / a.length.toFloat + count.toFloat / b.length.toFloat +
      (count - moved / 2).toFloat / count.toFloat) / 3

end CacheWarden.Text
