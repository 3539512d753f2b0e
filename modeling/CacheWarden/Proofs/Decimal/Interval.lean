import CacheWarden.Proofs.Decimal.Nearest
import Mathlib
/-!
The decimals that read back.

A comparison of a decimal with a double is one of natural numbers over a common denominator
(`compareScaled_spec`), so a decimal reads back if its value lies between two ends
(`readsBack_iff`).  With all 53 bits in use these are the midpoints to the next doubles, and
what lies between them are the numbers that the double is the nearest to
(`accepts_iff_isNearest`).  Just above a power of two the lower neighbour is nearer.
-/

namespace CacheWarden.Decimal

/-! ### Comparing -/

/-- The value of a decimal. -/
def Scaled.value (d : Scaled) : ℚ := d.digits * 10 ^ d.exponent

/-- A comparison of a decimal with a double is one of natural numbers, over a common denominator. -/
theorem compareScaled_spec (a : ℕ) (i : ℤ) (b : ℕ) (j : ℤ) :
    (compareScaled a i b j = .lt ↔ (a : ℚ) * 10 ^ i < b * 2 ^ j) ∧
      (compareScaled a i b j = .eq ↔ (a : ℚ) * 10 ^ i = b * 2 ^ j) ∧
      (compareScaled a i b j = .gt ↔ (b : ℚ) * 2 ^ j < a * 10 ^ i) := by
  have hpos : (0 : ℚ) < 10 ^ (-i).toNat * 2 ^ (-j).toNat := by positivity
  have hleft : (a : ℚ) * 10 ^ i = (a * 10 ^ i.toNat * 2 ^ (-j).toNat : ℕ) /
      (10 ^ (-i).toNat * 2 ^ (-j).toNat) := by
    rw [zpow_eq_div (by norm_num) i]
    push_cast
    field_simp
  have hright : (b : ℚ) * 2 ^ j = (b * 2 ^ j.toNat * 10 ^ (-i).toNat : ℕ) /
      (10 ^ (-i).toNat * 2 ^ (-j).toNat) := by
    rw [zpow_eq_div (by norm_num) j]
    push_cast
    field_simp
  rw [hleft, hright, div_lt_div_iff_of_pos_right hpos, div_lt_div_iff_of_pos_right hpos,
    div_left_inj' hpos.ne', Nat.cast_lt, Nat.cast_lt, Nat.cast_inj]
  simp only [compareScaled, Nat.pow_eq, Nat.compare_eq_lt, Nat.compare_eq_gt, compare_eq_iff_eq,
    and_self]

/-! ### The interval -/

namespace Binary

variable {x : Binary} {q : ℚ}

/-- Where the numbers that round to a double begin. -/
def lowEnd (x : Binary) : ℚ :=
  (if x.tight then 4 * x.mantissa - 1 else 4 * x.mantissa - 2 : ℕ) * 2 ^ (x.exponent - 2)

/-- Where the numbers that round to a double end. -/
def highEnd (x : Binary) : ℚ := (4 * x.mantissa + 2 : ℕ) * 2 ^ (x.exponent - 2)

/-- A number lies between the ends, which belong to the interval if the mantissa is even. -/
structure Accepts (x : Binary) (q : ℚ) : Prop where
  above : x.lowEnd < q ∨ (x.mantissa % 2 = 0 ∧ x.lowEnd = q)
  below : q < x.highEnd ∨ (x.mantissa % 2 = 0 ∧ q = x.highEnd)

/-- A decimal reads back if its value lies in the interval. -/
theorem readsBack_iff (x : Binary) (d : Scaled) : x.readsBack d = true ↔ x.Accepts d.value := by
  unfold readsBack
  simp only [Bool.and_eq_true, Bool.or_eq_true, beq_iff_eq, (compareScaled_spec _ _ _ _).1,
    (compareScaled_spec _ _ _ _).2.1, (compareScaled_spec _ _ _ _).2.2]
  have hlow : x.lowEnd = d.value ↔ d.value = x.lowEnd := eq_comm
  constructor
  · rintro ⟨habove, hbelow⟩
    exact ⟨habove.imp_right fun h => ⟨h.1, hlow.mpr h.2⟩, hbelow⟩
  · rintro ⟨habove, hbelow⟩
    exact ⟨habove.imp_right fun h => ⟨h.1, hlow.mp h.2⟩, hbelow⟩

/-- What lies between two numbers of the interval lies in it. -/
theorem Accepts.convex {a b : ℚ} (ha : x.Accepts a) (hb : x.Accepts b) (haq : a ≤ q)
    (hqb : q ≤ b) : x.Accepts q := by
  constructor
  · rcases ha.above with h | ⟨heven, h⟩
    · exact .inl (h.trans_le haq)
    · rcases haq.lt_or_eq with hlt | heq
      · exact .inl (h ▸ hlt)
      · exact .inr ⟨heven, h.trans heq⟩
  · rcases hb.below with h | ⟨heven, h⟩
    · exact .inl (hqb.trans_lt h)
    · rcases hqb.lt_or_eq with hlt | heq
      · exact .inl (h ▸ hlt)
      · exact .inr ⟨heven, heq.trans h⟩

/-! ### The neighbours -/

/-- A double as it is kept: all 53 bits of the mantissa are in use, the gap below is known, and the
power of two is in range. -/
structure IsFull (x : Binary) : Prop where
  low : 2 ^ 52 ≤ x.mantissa
  high : x.mantissa < 2 ^ 53
  tight : x.tight = true ↔ x.mantissa = 2 ^ 52
  range : -1074 ≤ x.exponent ∧ x.exponent ≤ 971

theorem IsFull.isNormal (hx : x.IsFull) : x.IsNormal := ⟨hx.high, .inr hx.low⟩

theorem isDouble_of_le {m : ℕ} (e : ℤ) (h : m ≤ 2 ^ 53) : IsDouble (m * 2 ^ e) := by
  rcases h.lt_or_eq with hlt | rfl
  · exact ⟨m, e, hlt, rfl⟩
  · refine ⟨2 ^ 52, e + 1, by norm_num, ?_⟩
    rw [two_zpow_eq (e + 1), add_sub_cancel_right]
    push_cast
    ring

/-- A quarter of a unit, four of which make it. -/
theorem two_zpow_eq_four (e : ℤ) : (2 : ℚ) ^ e = 4 * 2 ^ (e - 2) := by
  rw [two_zpow_eq e, two_zpow_eq (e - 1), show e - 1 - 1 = e - 2 by ring]
  ring

theorem highEnd_eq (x : Binary) : x.highEnd = x.value + 2 ^ x.exponent / 2 := by
  rw [highEnd, value, two_zpow_eq_four x.exponent]
  push_cast
  ring

namespace IsFull

variable (hx : x.IsFull)
include hx

theorem lowEnd_eq_of_tight (h : x.mantissa = 2 ^ 52) :
    x.lowEnd = x.value - 2 ^ (x.exponent - 1) / 2 := by
  rw [lowEnd, if_pos (hx.tight.mpr h), value, two_zpow_eq_four x.exponent,
    two_zpow_eq (x.exponent - 1), show x.exponent - 1 - 1 = x.exponent - 2 by ring, h]
  push_cast
  ring

theorem lowEnd_eq_of_ne (h : x.mantissa ≠ 2 ^ 52) : x.lowEnd = x.value - 2 ^ x.exponent / 2 := by
  have hcast : ((4 * x.mantissa - 2 : ℕ) : ℚ) = 4 * x.mantissa - 2 := by
    have := hx.low
    rw [Nat.cast_sub (by omega)]
    push_cast
    ring
  rw [lowEnd, if_neg (hx.tight.not.mpr h), hcast, value, two_zpow_eq_four x.exponent]
  ring

/-- The midpoint to the double below is the lower end. -/
theorem exists_below : ∃ v, IsDouble v ∧ v < x.value ∧ 2 * x.lowEnd = x.value + v := by
  by_cases h : x.mantissa = 2 ^ 52
  · refine ⟨(2 ^ 53 - 1 : ℕ) * 2 ^ (x.exponent - 1), isDouble_of_le _ (by omega), ?_, ?_⟩
    · rw [value, h, two_zpow_eq x.exponent]
      have : (0 : ℚ) < 2 ^ (x.exponent - 1) := by positivity
      push_cast
      linarith
    · rw [hx.lowEnd_eq_of_tight h, value, h, two_zpow_eq x.exponent]
      push_cast
      ring
  · have hlow := hx.low
    have hcast : ((x.mantissa - 1 : ℕ) : ℚ) = x.mantissa - 1 := by
      rw [Nat.cast_sub (by omega), Nat.cast_one]
    refine ⟨(x.mantissa - 1 : ℕ) * 2 ^ x.exponent,
      isDouble_of_le _ (by have := hx.high; omega), ?_, ?_⟩
    · rw [hcast, value]
      have : (0 : ℚ) < 2 ^ x.exponent := by positivity
      linarith
    · rw [hx.lowEnd_eq_of_ne h, hcast, value]
      ring

/-- The midpoint to the double above is the upper end. -/
theorem exists_above : ∃ v, IsDouble v ∧ x.value < v ∧ 2 * x.highEnd = x.value + v := by
  have hunit : (0 : ℚ) < 2 ^ x.exponent := by positivity
  refine ⟨(x.mantissa + 1 : ℕ) * 2 ^ x.exponent,
    isDouble_of_le _ (Nat.succ_le_of_lt hx.high), ?_, ?_⟩
  · rw [value]
    push_cast
    linarith
  · rw [highEnd_eq, value]
    push_cast
    ring

/-- Just above a power of two, what is below the double is nearest to it by the unit below. -/
theorem isNearest_below (h : x.mantissa = 2 ^ 52) (hq : q < x.value) (hin : x.Accepts q) :
    x.IsNearest q := by
  have hend := hx.lowEnd_eq_of_tight h
  have hvalue : x.value = (2 ^ 53 : ℕ) * 2 ^ (x.exponent - 1) := by
    rw [value, h, two_zpow_eq x.exponent]
    push_cast
    ring
  have hlow : x.lowEnd ≤ q := hin.above.elim le_of_lt fun h => h.2.le
  have hunit : (0 : ℚ) < 2 ^ (x.exponent - 1) := by positivity
  have hdist : |q - (2 ^ 53 : ℕ) * 2 ^ (x.exponent - 1)| = x.value - q := by
    rw [← hvalue, abs_of_neg (by linarith), neg_sub]
  refine (isNearest_ofMantissa (m := 2 ^ 53) (e := x.exponent - 1) (by norm_num) le_rfl ?_ ?_
    fun _ => rfl).congr hx.isNormal ?_
  · push_cast at hvalue
    linarith
  · rw [hdist]
    linarith
  · rw [value_ofMantissa, hvalue]

/-- Anything else in the interval is nearest to the double by its own unit. -/
theorem isNearest_of_accepts (hq : x.mantissa = 2 ^ 52 → x.value ≤ q) (hin : x.Accepts q) :
    x.IsNearest q := by
  have hunit : (0 : ℚ) < 2 ^ x.exponent := by positivity
  have hhigh := x.highEnd_eq
  -- the ends are half a unit away, or the lower one does not matter
  have habove : x.value - 2 ^ x.exponent / 2 < q ∨
      (x.mantissa % 2 = 0 ∧ x.value - 2 ^ x.exponent / 2 = q) := by
    by_cases h : x.mantissa = 2 ^ 52
    · exact .inl (by linarith [hq h])
    · rw [← hx.lowEnd_eq_of_ne h]
      exact hin.above
  have hbelow := hhigh ▸ hin.below
  refine (isNearest_ofMantissa (m := x.mantissa) (e := x.exponent) hx.low hx.high.le ?_ ?_
    ?_).congr hx.isNormal (value_ofMantissa _ _)
  · by_cases h : x.mantissa = 2 ^ 52
    · have := hq h
      rw [value, h] at this
      push_cast at this
      exact this
    · have hlow : ((2 ^ 52 + 1 : ℕ) : ℚ) ≤ x.mantissa := by
        have := hx.low
        exact_mod_cast (by omega : 2 ^ 52 + 1 ≤ x.mantissa)
      have hmul : ((2 ^ 52 + 1 : ℕ) : ℚ) * 2 ^ x.exponent ≤ x.value :=
        mul_le_mul_of_nonneg_right hlow hunit.le
      push_cast at hmul
      rcases habove with h | ⟨-, h⟩ <;> linarith
  · change 2 * |q - x.value| ≤ _
    rw [← le_div_iff₀' (by norm_num), abs_le]
    constructor
    · rcases habove with h | ⟨-, h⟩ <;> linarith
    · rcases hbelow with h | ⟨-, h⟩ <;> linarith
  · intro heq
    change 2 * |q - x.value| = _ at heq
    rcases habove with habove | h
    · rcases hbelow with hbelow | h
      · rcases abs_cases (q - x.value) with h | h <;> linarith
      · exact h.1
    · exact h.1

/-- The interval of a double is made of the numbers that it is the nearest double to. -/
theorem accepts_iff_isNearest : x.Accepts q ↔ x.IsNearest q := by
  constructor
  · intro hin
    by_cases h : x.mantissa = 2 ^ 52 ∧ q < x.value
    · exact hx.isNearest_below h.1 h.2 hin
    · exact hx.isNearest_of_accepts (fun hm => not_lt.mp fun hq => h ⟨hm, hq⟩) hin
  · intro hq
    constructor
    · obtain ⟨v, hv, hlt, hend⟩ := hx.exists_below
      have hnear := hq.nearest v hv
      rcases lt_or_ge x.lowEnd q with h | h
      · exact .inl h
      · have heq : q = x.lowEnd := by
          rcases abs_cases (q - x.value) with h' | h' <;>
            rcases abs_cases (q - v) with h'' | h'' <;> linarith
        refine .inr ⟨hq.even v hv hlt.ne ?_, heq.symm⟩
        rw [abs_of_pos (by linarith), abs_of_neg (by linarith)]
        linarith
    · obtain ⟨v, hv, hlt, hend⟩ := hx.exists_above
      have hnear := hq.nearest v hv
      rcases lt_or_ge q x.highEnd with h | h
      · exact .inl h
      · have heq : q = x.highEnd := by
          rcases abs_cases (q - x.value) with h' | h' <;>
            rcases abs_cases (q - v) with h'' | h'' <;> linarith
        refine .inr ⟨hq.even v hv hlt.ne' ?_, heq⟩
        rw [abs_of_neg (by linarith), abs_of_pos (by linarith)]
        linarith

/-- A decimal reads back if the double is the nearest one to it. -/
theorem readsBack_iff_isNearest (d : Scaled) : x.readsBack d = true ↔ x.IsNearest d.value :=
  (readsBack_iff x d).trans hx.accepts_iff_isNearest

end IsFull

/-- The double of a positive integer of 64 bits uses all its own. -/
theorem isFull_ofNat {n : ℕ} (hn : 0 < n) (h : n < 2 ^ 64) : (Binary.ofNat n).IsFull := by
  obtain ⟨m, hm, hlow, hfull, -⟩ := ofNat_eq hn
  have hlog : n.log2 < 64 := (Nat.log2_lt hn.ne').mpr h
  rw [hm, ofMantissa]
  simp only [Nat.pow_eq]
  split
  · exact ⟨le_rfl, by norm_num, iff_of_true rfl rfl, by simp only; omega⟩
  · exact ⟨hlow, by simp only; omega, by simp, by simp only; omega⟩

end Binary

end CacheWarden.Decimal
