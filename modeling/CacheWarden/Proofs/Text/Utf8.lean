import CacheWarden.Text.Utf8
import Mathlib
/-!
UTF-8 both ways.

The bytes of a character decode to it (`decodeChar?_encode`), and what decodes to a
character are its bytes (`eq_encode_of_decodeChar?`), so every character has exactly
one spelling.  It is the same for whole texts (`decode?_eq_some_iff`).
-/

namespace CacheWarden.Text

/-! ### Bytes and code points -/

theorem toNat_ofNat_of_lt {n : Nat} (h : n < 256) : (UInt8.ofNat n).toNat = n := by
  rw [UInt8.toNat_ofNat']
  omega

theorem ofNat_eq_of_toNat {b : UInt8} {n : Nat} (h : b.toNat = n) : UInt8.ofNat n = b := by
  rw [← h, UInt8.ofNat_toNat]

theorem toNat_lt_of_char (c : Char) : c.toNat < 0x110000 := by
  rcases c.valid with h | h
  · exact Nat.lt_trans h (by decide)
  · exact h.2

theorem charFrom?_toNat {bound : Nat} {c : Char} (h : bound ≤ c.toNat) :
    charFrom? bound c.toNat = some c := by
  have hvalid : c.toNat.isValidChar := c.valid
  unfold charFrom?
  rw [dif_pos hvalid, if_pos h]
  rfl

theorem toNat_of_charFrom? {bound n : Nat} {c : Char} (h : charFrom? bound n = some c) :
    c.toNat = n ∧ bound ≤ n := by
  unfold charFrom? at h
  split at h
  · split at h
    · cases h
      exact ⟨rfl, ‹_›⟩
    · cases h
  · cases h

theorem continuation?_ofNat {n : Nat} (h : n < 64) :
    continuation? (UInt8.ofNat (n + 128)) = some n := by
  unfold continuation?
  rw [toNat_ofNat_of_lt (by omega), if_pos (by omega), Nat.add_sub_cancel]

theorem toNat_of_continuation? {b : UInt8} {n : Nat} (h : continuation? b = some n) :
    b.toNat = n + 128 ∧ n < 64 := by
  unfold continuation? at h
  split at h
  · have hn := Option.some.inj h
    omega
  · cases h

/-! ### Encoding, then decoding

The first byte tells how many follow. -/

theorem decodeChar?_one {b : UInt8} {c : Char} (rest : List UInt8) (hb : b.toNat < 0x80)
    (hc : c.toNat = b.toNat) : decodeChar? (b :: rest) = some (c, rest) := by
  simp only [decodeChar?]
  rw [if_pos hb, ← hc, charFrom?_toNat (Nat.zero_le _), Option.map_some]

theorem decodeChar?_two {b b₁ : UInt8} {c : Char} {x : Nat} (rest : List UInt8)
    (hb : 0xC0 ≤ b.toNat ∧ b.toNat < 0xE0) (hx : continuation? b₁ = some x)
    (hc : c.toNat = (b.toNat - 0xC0) * 64 + x) (hbound : 0x80 ≤ c.toNat) :
    decodeChar? (b :: b₁ :: rest) = some (c, rest) := by
  simp only [decodeChar?]
  rw [if_neg (by omega), if_neg (by omega), if_pos hb.2, hx, Option.bind_eq_bind, Option.bind_some,
    ← hc, charFrom?_toNat hbound]
  rfl

theorem decodeChar?_three {b b₁ b₂ : UInt8} {c : Char} {x y : Nat} (rest : List UInt8)
    (hb : 0xE0 ≤ b.toNat ∧ b.toNat < 0xF0) (hx : continuation? b₁ = some x)
    (hy : continuation? b₂ = some y) (hc : c.toNat = (b.toNat - 0xE0) * 4096 + x * 64 + y)
    (hbound : 0x800 ≤ c.toNat) : decodeChar? (b :: b₁ :: b₂ :: rest) = some (c, rest) := by
  simp only [decodeChar?]
  rw [if_neg (by omega), if_neg (by omega), if_neg (by omega), if_pos hb.2, hx,
    Option.bind_eq_bind, Option.bind_some, hy, Option.bind_some, ← hc, charFrom?_toNat hbound]
  rfl

theorem decodeChar?_four {b b₁ b₂ b₃ : UInt8} {c : Char} {x y z : Nat} (rest : List UInt8)
    (hb : 0xF0 ≤ b.toNat ∧ b.toNat < 0xF8) (hx : continuation? b₁ = some x)
    (hy : continuation? b₂ = some y) (hz : continuation? b₃ = some z)
    (hc : c.toNat = (b.toNat - 0xF0) * 262144 + x * 4096 + y * 64 + z)
    (hbound : 0x10000 ≤ c.toNat) :
    decodeChar? (b :: b₁ :: b₂ :: b₃ :: rest) = some (c, rest) := by
  simp only [decodeChar?]
  rw [if_neg (by omega), if_neg (by omega), if_neg (by omega), if_neg (by omega), if_pos hb.2, hx,
    Option.bind_eq_bind, Option.bind_some, hy, Option.bind_eq_bind, Option.bind_some, hz,
    Option.bind_some, ← hc, charFrom?_toNat hbound]
  rfl

/-- The bytes of a character decode to it. -/
theorem decodeChar?_encode (c : Char) (rest : List UInt8) :
    decodeChar? (String.utf8EncodeChar c ++ rest) = some (c, rest) := by
  have hlt := toNat_lt_of_char c
  have hval : c.val.toNat = c.toNat := rfl
  have hmod (n : Nat) : n % 64 < 64 := Nat.mod_lt _ (by omega)
  unfold String.utf8EncodeChar
  simp only [hval]
  split
  · apply decodeChar?_one
    · rw [toNat_ofNat_of_lt (by omega)]
      omega
    · rw [toNat_ofNat_of_lt (by omega)]
  · split
    · apply decodeChar?_two rest _ (continuation?_ofNat (hmod _))
      · rw [toNat_ofNat_of_lt (by omega)]
        omega
      · omega
      · rw [toNat_ofNat_of_lt (by omega)]
        omega
    · split
      · apply decodeChar?_three rest _ (continuation?_ofNat (hmod _)) (continuation?_ofNat (hmod _))
        · rw [toNat_ofNat_of_lt (by omega)]
          omega
        · omega
        · rw [toNat_ofNat_of_lt (by omega)]
          omega
      · apply decodeChar?_four rest _ (continuation?_ofNat (hmod _)) (continuation?_ofNat (hmod _))
          (continuation?_ofNat (hmod _))
        · rw [toNat_ofNat_of_lt (by omega)]
          omega
        · omega
        · rw [toNat_ofNat_of_lt (by omega)]
          omega

/-! ### Decoding, then encoding -/

/-- What decodes to a character are its bytes. -/
theorem eq_encode_of_decodeChar? {bytes rest : List UInt8} {c : Char}
    (h : decodeChar? bytes = some (c, rest)) : bytes = String.utf8EncodeChar c ++ rest := by
  have hval : c.val.toNat = c.toNat := rfl
  unfold decodeChar? at h
  unfold String.utf8EncodeChar
  simp only [hval]
  split at h
  · cases h
  · rename_i b tail
    dsimp only at h
    split at h
    · -- one byte
      obtain ⟨d, hd, hpair⟩ := Option.map_eq_some_iff.mp h
      cases hpair
      obtain ⟨hc, -⟩ := toNat_of_charFrom? hd
      rw [if_pos (by omega), ofNat_eq_of_toNat hc.symm]
      rfl
    · split at h
      · cases h
      · split at h
        · -- two bytes
          split at h
          · simp only [Option.bind_eq_bind, Option.bind_eq_some_iff, Option.pure_def,
              Option.some.injEq, Prod.mk.injEq] at h
            obtain ⟨x, hx, d, hd, rfl, rfl⟩ := h
            obtain ⟨hx, hx'⟩ := toNat_of_continuation? hx
            obtain ⟨hc, hbound⟩ := toNat_of_charFrom? hd
            rw [if_neg (by omega), if_pos (by omega), ofNat_eq_of_toNat (b := b) (by omega),
              ofNat_eq_of_toNat (n := d.toNat % 64 + 128) (hx.trans (by omega))]
            rfl
          · cases h
        · split at h
          · -- three bytes
            split at h
            · simp only [Option.bind_eq_bind, Option.bind_eq_some_iff, Option.pure_def,
                Option.some.injEq, Prod.mk.injEq] at h
              obtain ⟨x, hx, y, hy, d, hd, rfl, rfl⟩ := h
              obtain ⟨hx, hx'⟩ := toNat_of_continuation? hx
              obtain ⟨hy, hy'⟩ := toNat_of_continuation? hy
              obtain ⟨hc, hbound⟩ := toNat_of_charFrom? hd
              rw [if_neg (by omega), if_neg (by omega), if_pos (by omega),
                ofNat_eq_of_toNat (b := b) (by omega),
                ofNat_eq_of_toNat (n := d.toNat / 64 % 64 + 128) (hx.trans (by omega)),
                ofNat_eq_of_toNat (n := d.toNat % 64 + 128) (hy.trans (by omega))]
              rfl
            · cases h
          · split at h
            · -- four bytes
              split at h
              · simp only [Option.bind_eq_bind, Option.bind_eq_some_iff, Option.pure_def,
                  Option.some.injEq, Prod.mk.injEq] at h
                obtain ⟨x, hx, y, hy, z, hz, d, hd, rfl, rfl⟩ := h
                obtain ⟨hx, hx'⟩ := toNat_of_continuation? hx
                obtain ⟨hy, hy'⟩ := toNat_of_continuation? hy
                obtain ⟨hz, hz'⟩ := toNat_of_continuation? hz
                obtain ⟨hc, hbound⟩ := toNat_of_charFrom? hd
                rw [if_neg (by omega), if_neg (by omega), if_neg (by omega),
                  ofNat_eq_of_toNat (b := b) (by omega),
                  ofNat_eq_of_toNat (n := d.toNat / 4096 % 64 + 128) (hx.trans (by omega)),
                  ofNat_eq_of_toNat (n := d.toNat / 64 % 64 + 128) (hy.trans (by omega)),
                  ofNat_eq_of_toNat (n := d.toNat % 64 + 128) (hz.trans (by omega))]
                rfl
              · cases h
            · cases h

/-! ### Texts -/

theorem utf8_cons (c : Char) (cs : List Char) :
    utf8 (c :: cs) = String.utf8EncodeChar c ++ utf8 cs := rfl

theorem utf8_append (xs ys : List Char) : utf8 (xs ++ ys) = utf8 xs ++ utf8 ys :=
  List.flatMap_append

/-- What bytes of a text decode to first is its first character. -/
theorem decodeChar?_utf8 {bytes : List UInt8} {cs : List Char} (h : bytes = utf8 cs)
    (hbytes : bytes ≠ []) :
    ∃ c rest, cs = c :: rest ∧ decodeChar? bytes = some (c, utf8 rest) := by
  cases cs with
  | nil => exact absurd h hbytes
  | cons c rest => exact ⟨c, rest, rfl, by rw [h, utf8_cons, decodeChar?_encode]⟩

/-- Bytes decode to a text exactly if they are its bytes. -/
theorem decode?_eq_some_iff {bytes : List UInt8} {cs : List Char} :
    decode? bytes = some cs ↔ bytes = utf8 cs := by
  fun_induction decode? bytes generalizing cs with
  | case1 =>
    cases cs with
    | nil => exact iff_of_true rfl rfl
    | cons c rest =>
      refine iff_of_false (by simp) fun h => ?_
      have hlength := length_of_decodeChar? (decodeChar?_encode c (utf8 rest))
      rw [← utf8_cons, ← h] at hlength
      exact Nat.not_lt_zero _ hlength
  | case2 b tail hnone =>
    refine iff_of_false (by simp) fun h => ?_
    obtain ⟨c, rest, -, hsome⟩ := decodeChar?_utf8 h (by simp)
    rw [hnone] at hsome
    cases hsome
  | case3 b tail c rest hsome ih =>
    rw [Option.map_eq_some_iff]
    constructor
    · rintro ⟨ds, hds, rfl⟩
      rw [eq_encode_of_decodeChar? hsome, utf8_cons, ih.mp hds]
    · intro h
      obtain ⟨d, ds, rfl, hd⟩ := decodeChar?_utf8 h (by simp)
      rw [hsome] at hd
      cases hd
      exact ⟨ds, ih.mpr rfl, rfl⟩

/-- An ASCII character is one byte. -/
theorem utf8EncodeChar_of_lt {c : Char} (h : c.toNat < 128) :
    String.utf8EncodeChar c = [UInt8.ofNat c.toNat] := by
  unfold String.utf8EncodeChar
  exact if_pos (Nat.le_of_lt_succ h)

end CacheWarden.Text
