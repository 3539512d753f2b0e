import CacheWarden.Proofs.Json.Byte
/-!
The readers of items and of fields, as one.

Both take a thing, then white space, and then either the closing byte or a comma with
the next thing behind it (`Round`).  What holds of every reader that goes on in such
rounds (`Series`) is proved once for both.
-/

namespace CacheWarden.Json

variable {α : Type}

/-- One round of a reader of things with commas between them, up to a closing byte. -/
inductive Round (read : Reader α) (close : UInt8) (readRest : Reader (List α))
    (bytes : List UInt8) : List α → List UInt8 → Prop
  /-- The thing is the last one. -/
  | last {x : α} {z rest : List UInt8} :
      read bytes = .ok (x, z ++ close :: rest) → Space z → Round read close readRest bytes [x] rest
  /-- Another thing follows. -/
  | more {x : α} {xs : List α} {z a tail rest : List UInt8} {c : UInt8} :
      read bytes = .ok (x, z ++ 0x2C :: (a ++ c :: tail)) → Space z → Space a →
        isSpace c = false → c ≠ close → readRest (c :: tail) = .ok (xs, rest) →
          Round read close readRest bytes (x :: xs) rest

/-- A reader that goes on in rounds, with fuel for so many of them. -/
structure Series (read : Reader α) (close : UInt8) (readAll : Nat → Reader (List α)) : Prop where
  zero : ∀ bytes r, readAll 0 bytes ≠ .ok r
  succ : ∀ fuel bytes xs rest,
    readAll (fuel + 1) bytes = .ok (xs, rest) ↔ Round read close (readAll fuel) bytes xs rest

/-! ### Rounds -/

/-- What is left behind white space starts with something else. -/
theorem exists_space_cons {bytes tail : List UInt8} {b : UInt8} (h : skipSpace bytes = b :: tail) :
    ∃ ws, Space ws ∧ bytes = ws ++ b :: tail ∧ isSpace b = false := by
  obtain ⟨ws, hws, hbytes⟩ := exists_space bytes
  refine ⟨ws, hws, h ▸ hbytes, ?_⟩
  have hhead := List.head?_dropWhile_not isSpace bytes
  unfold skipSpace at h
  rw [h] at hhead
  exact hhead

/-- Behind white space that is skipped comes the next byte. -/
theorem skipSpace_append_cons {ws : List UInt8} {b : UInt8} (hws : Space ws)
    (hb : isSpace b = false) (rest : List UInt8) : skipSpace (ws ++ b :: rest) = b :: rest := by
  rw [skipSpace_append hws, skipSpace_cons hb]

/-- One round in which a reader of things goes on, with the causes of its faults. -/
def readRound (read : Reader α) (close : UInt8) (atEnd behind : Cause)
    (readRest : Reader (List α)) : Reader (List α) := fun bytes => do
  let (x, rest) ← read bytes
  match skipSpace rest with
  | [] => failNext atEnd []
  | b :: rest =>
    if b = close then pure ([x], rest)
    else if b = 0x2C then
      match skipSpace rest with
      | [] => failNext .endInValue []
      | c :: rest =>
        if c = close then failNext .trailingComma (c :: rest)
        else do
          let (xs, rest) ← readRest (c :: rest)
          pure (x :: xs, rest)
    else failNext behind (b :: rest)

theorem readRound_eq_ok_iff {read : Reader α} {close : UInt8} {atEnd behind : Cause}
    {readRest : Reader (List α)} {bytes rest : List UInt8} {xs : List α}
    (hspace : isSpace close = false) (hcomma : 0x2C ≠ close) :
    readRound read close atEnd behind readRest bytes = .ok (xs, rest) ↔
      Round read close readRest bytes xs rest := by
  unfold readRound
  constructor
  · intro h
    obtain ⟨⟨x, left⟩, hread, hnext⟩ := exists_of_bind_ok h
    dsimp only at hnext
    split at hnext
    · cases hnext
    · rename_i b tail hskip
      obtain ⟨z, hz, rfl, -⟩ := exists_space_cons hskip
      split at hnext
      · rename_i hb
        cases hnext
        exact .last (hb ▸ hread) hz
      · split at hnext
        · rename_i hb
          split at hnext
          · cases hnext
          · rename_i c more hmore
            obtain ⟨a, ha, rfl, hc⟩ := exists_space_cons hmore
            split at hnext
            · cases hnext
            · rename_i hclose
              obtain ⟨⟨us, left'⟩, hrest, hlast⟩ := exists_of_bind_ok hnext
              cases hlast
              exact .more (hb ▸ hread) hz ha hc hclose hrest
        · cases hnext
  · intro h
    cases h with
    | last hread hz =>
      simp only [hread, bind, Except.bind]
      rw [skipSpace_append_cons hz hspace]
      exact if_pos rfl
    | more hread hz ha hc hclose hrest =>
      simp only [hread, bind, Except.bind]
      rw [skipSpace_append_cons hz (by decide)]
      dsimp only
      rw [if_neg hcomma, if_pos rfl, skipSpace_append_cons ha hc]
      dsimp only
      rw [if_neg hclose, hrest]
      rfl

/-! ### The two readers -/

theorem series_items (item : Reader Value) : Series item 0x5D (readItems item) where
  zero _ _ h := by cases h
  succ fuel bytes vs rest := by
    show readRound item 0x5D .endInList .expectedListSeparator (readItems item fuel) bytes = _ ↔ _
    exact readRound_eq_ok_iff (by decide) (by decide)

theorem series_fields (item : Reader Value) : Series (readField item) 0x7D (readFields item) where
  zero _ _ h := by cases h
  succ fuel bytes fs rest := by
    show readRound (readField item) 0x7D .endInObject .expectedObjectSeparator
      (readFields item fuel) bytes = _ ↔ _
    exact readRound_eq_ok_iff (by decide) (by decide)

end CacheWarden.Json
