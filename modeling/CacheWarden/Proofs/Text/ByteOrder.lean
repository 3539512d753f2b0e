import CacheWarden.Proofs.Text.Utf8
/-!
The order of texts by their bytes.

Texts compare character by character, by code points.  UTF-8 was made so that their
bytes compare the same way: of two characters the one with the smaller code point has
the smaller first byte, or they agree on that and the next byte decides, and so on
(`utf8EncodeChar_lt`).  So texts that stand in order stand in the order of their bytes
too (`inByteOrder_iff`).
-/

namespace CacheWarden.Text

/-- The bytes of a text come before those of another, as in a dictionary. -/
def InByteOrder (s t : String) : Prop := utf8 s.toList < utf8 t.toList

/-! ### Bytes -/

theorem byte_lt {m n : Nat} (hlt : m < n) (hn : n < 256) (xs ys : List UInt8) :
    UInt8.ofNat m :: xs < UInt8.ofNat n :: ys := by
  apply List.Lex.rel
  rw [UInt8.lt_iff_toNat_lt, toNat_ofNat_of_lt (by omega), toNat_ofNat_of_lt hn]
  exact hlt

/-- The first bytes decide, or they are the same and the others do. -/
theorem byte_le {m n : Nat} {xs ys : List UInt8} (hle : m ≤ n) (hn : n < 256)
    (h : m = n → xs < ys) : UInt8.ofNat m :: xs < UInt8.ofNat n :: ys := by
  rcases Nat.lt_or_eq_of_le hle with hlt | heq
  · exact byte_lt hlt hn xs ys
  · rw [heq]
    exact List.Lex.cons (h heq)

/-! ### Characters -/

/-- Characters compare as the bytes that stand for them, whatever follows. -/
theorem utf8EncodeChar_lt {c d : Char} (h : c < d) (xs ys : List UInt8) :
    String.utf8EncodeChar c ++ xs < String.utf8EncodeChar d ++ ys := by
  have hlt : c.toNat < d.toNat := h
  have hd := toNat_lt_of_char d
  have hc : c.val.toNat = c.toNat := rfl
  have hd' : d.val.toNat = d.toNat := rfl
  unfold String.utf8EncodeChar
  simp only [hc, hd']
  generalize c.toNat = m at hlt ⊢
  generalize d.toNat = n at hlt hd ⊢
  split_ifs
  -- of characters with different numbers of bytes, the first bytes tell
  all_goals first
    | omega
    | exact byte_lt (by omega) (by omega) _ _
    | skip
  · apply byte_le (by omega) (by omega)
    intro _
    exact byte_lt (by omega) (by omega) _ _
  · apply byte_le (by omega) (by omega)
    intro _
    apply byte_le (by omega) (by omega)
    intro _
    exact byte_lt (by omega) (by omega) _ _
  · apply byte_le (by omega) (by omega)
    intro _
    apply byte_le (by omega) (by omega)
    intro _
    apply byte_le (by omega) (by omega)
    intro _
    exact byte_lt (by omega) (by omega) _ _

/-! ### Texts -/

theorem utf8_lt {cs ds : List Char} (h : cs < ds) : utf8 cs < utf8 ds := by
  induction cs generalizing ds with
  | nil =>
    cases ds with
    | nil => exact absurd h (List.lt_irrefl _)
    | cons d ds =>
      -- every character has a byte
      rw [utf8_cons]
      unfold String.utf8EncodeChar
      dsimp only
      split
      · exact List.Lex.nil
      · split
        · exact List.Lex.nil
        · split <;> exact List.Lex.nil
  | cons c cs ih =>
    cases ds with
    | nil => cases h
    | cons d ds =>
      rw [utf8_cons, utf8_cons]
      rcases List.cons_lt_cons_iff.mp h with hlt | ⟨heq, hrest⟩
      · exact utf8EncodeChar_lt hlt _ _
      · rw [heq]
        exact List.append_left_lt (ih hrest)

/-- The order of texts is the order of their bytes. -/
theorem inByteOrder_iff {s t : String} : InByteOrder s t ↔ s < t := by
  have hto {s t : String} (h : s < t) : InByteOrder s t := utf8_lt (String.lt_iff_toList_lt.mp h)
  refine ⟨fun h => ?_, hto⟩
  rcases lt_trichotomy s t with hlt | heq | hgt
  · exact hlt
  · rw [heq] at h
    exact absurd h (List.lt_irrefl _)
  · exact absurd (hto hgt) (List.lt_asymm h)

end CacheWarden.Text
