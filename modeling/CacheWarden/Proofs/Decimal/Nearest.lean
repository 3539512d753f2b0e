import CacheWarden.Decimal.Notation
import Mathlib
/-!
Integers as doubles.

A double has 53 bits for its digits, so an integer of more bits may be none.  The double
that is taken for it is the nearest one, and of two the one with an even mantissa
(`nearest_ofNat`).  That is so of any number that is off by at most half a unit of the last
bit (`isNearest_ofMantissa`), since every other double is at least the rest of the unit away
(`le_add_of_ne`), or below all that have this unit (`IsDouble.multiple_or_lt`).  There is no
second one (`Binary.IsNearest.unique`): of two neighbours one mantissa is odd.
-/

namespace CacheWarden.Decimal

/-! ### Doubles -/

/-- The value of a double without its sign. -/
def Binary.value (x : Binary) : ℚ := x.mantissa * 2 ^ x.exponent

/-- A number that 53 bits and a power of two give.  The power has no bounds here. -/
def IsDouble (v : ℚ) : Prop := ∃ (m : ℕ) (e : ℤ), m < 2 ^ 53 ∧ v = m * 2 ^ e

/-- The form that a double is kept in: the mantissa takes all 53 bits, unless it is zero. -/
structure Binary.IsNormal (x : Binary) : Prop where
  lt : x.mantissa < 2 ^ 53
  full : x.mantissa = 0 ∨ 2 ^ 52 ≤ x.mantissa

/-- No double is nearer to a number, and if another one is as near, the mantissa is even. -/
structure Binary.IsNearest (x : Binary) (n : ℚ) : Prop where
  normal : x.IsNormal
  nearest : ∀ v, IsDouble v → |n - x.value| ≤ |n - v|
  even : ∀ v, IsDouble v → v ≠ x.value → |n - v| = |n - x.value| → x.mantissa % 2 = 0

theorem Binary.IsNormal.isDouble {x : Binary} (h : x.IsNormal) : IsDouble x.value :=
  ⟨x.mantissa, x.exponent, h.lt, rfl⟩

/-- A double is the nearest one to its own value. -/
theorem Binary.IsNormal.isNearest_self {x : Binary} (h : x.IsNormal) : x.IsNearest x.value := by
  refine ⟨h, ?_, ?_⟩
  · intro v _
    rw [sub_self, abs_zero]
    exact abs_nonneg _
  · intro v _ hne heq
    rw [sub_self, abs_zero, abs_eq_zero, sub_eq_zero] at heq
    exact absurd heq.symm hne

/-- A power of an integer is a fraction of two powers of natural numbers. -/
theorem zpow_eq_div {b : ℚ} (hb : b ≠ 0) (i : ℤ) : b ^ i = b ^ i.toNat / b ^ (-i).toNat := by
  rw [eq_div_iff (pow_ne_zero _ hb), ← zpow_natCast, ← zpow_natCast, ← zpow_add₀ hb]
  congr 1
  omega

/-- A unit is two of the next smaller one. -/
theorem two_zpow_eq (e : ℤ) : (2 : ℚ) ^ e = 2 * 2 ^ (e - 1) := by
  rw [← zpow_one_add₀ (by norm_num)]
  congr 1
  omega

/-- A double is a multiple of a power of two, or it is below the doubles that have that power for
their last bit. -/
theorem IsDouble.multiple_or_lt {v : ℚ} (h : IsDouble v) (e : ℤ) :
    (∃ k : ℕ, v = k * 2 ^ e) ∨ v < 2 ^ 52 * 2 ^ e := by
  obtain ⟨m, i, hm, rfl⟩ := h
  rcases Int.lt_or_le i e with hi | hi
  · right
    have hpow : (2 : ℚ) ^ i ≤ 2 ^ (e - 1) := zpow_le_zpow_right₀ (by norm_num) (by omega)
    have hm' : (m : ℚ) < 2 ^ 53 := by exact_mod_cast hm
    calc (m : ℚ) * 2 ^ i ≤ m * 2 ^ (e - 1) := by gcongr
      _ < 2 ^ 53 * 2 ^ (e - 1) := by gcongr
      _ = 2 ^ 52 * 2 ^ e := by
        rw [two_zpow_eq e]
        ring
  · left
    obtain ⟨j, rfl⟩ : ∃ j : ℕ, i = e + j := ⟨(i - e).toNat, by omega⟩
    refine ⟨m * 2 ^ j, ?_⟩
    rw [zpow_add₀ (by norm_num), zpow_natCast]
    push_cast
    ring

/-- From a number that is near a multiple of a unit, any other multiple is as far as what is left of
the unit, or farther. -/
theorem le_add_of_ne {n u : ℚ} (hu : 0 ≤ u) {k m : ℕ} (hne : k ≠ m) :
    u ≤ |n - k * u| + |n - m * u| := by
  have hstep : (1 : ℚ) ≤ |(k : ℚ) - m| := by
    have hint : (1 : ℤ) ≤ |(k : ℤ) - m| := Int.one_le_abs (by omega)
    exact_mod_cast hint
  calc u ≤ |(k : ℚ) - m| * u := le_mul_of_one_le_left hu hstep
    _ = |(n - m * u) - (n - k * u)| := by
      rw [← abs_of_nonneg hu, ← abs_mul, abs_of_nonneg hu]
      congr 1
      ring
    _ ≤ |n - m * u| + |n - k * u| := abs_sub _ _
    _ = |n - k * u| + |n - m * u| := add_comm _ _

/-! ### A mantissa and its unit -/

section Mantissa

variable {m : ℕ} {e : ℤ}

/-- A filled mantissa is the same number in the next form. -/
theorem value_ofMantissa (m : ℕ) (e : ℤ) : (Binary.ofMantissa m e).value = m * 2 ^ e := by
  unfold Binary.ofMantissa
  simp only [Nat.pow_eq]
  split
  · rename_i hm
    rw [Binary.value, hm, two_zpow_eq (e + 1), add_sub_cancel_right]
    push_cast
    ring
  · rfl

theorem isNormal_ofMantissa (hlow : 2 ^ 52 ≤ m) (hfull : m ≤ 2 ^ 53) :
    (Binary.ofMantissa m e).IsNormal := by
  unfold Binary.ofMantissa
  simp only [Nat.pow_eq]
  split
  · exact ⟨by norm_num, .inr le_rfl⟩
  · exact ⟨by simp only; omega, .inr hlow⟩

/-- The double with a mantissa is nearest to a number that is at most half a unit away, and not
below the doubles with this unit.  If it is just half a unit, the mantissa has to be even. -/
theorem isNearest_ofMantissa {q : ℚ} (hlow : 2 ^ 52 ≤ m) (hfull : m ≤ 2 ^ 53)
    (hq : 2 ^ 52 * 2 ^ e ≤ q) (hhalf : 2 * |q - m * 2 ^ e| ≤ 2 ^ e)
    (heven : 2 * |q - m * 2 ^ e| = 2 ^ e → m % 2 = 0) :
    (Binary.ofMantissa m e).IsNearest q := by
  have hunit : (0 : ℚ) ≤ 2 ^ e := by positivity
  have hother (k : ℕ) : |q - m * 2 ^ e| ≤ |q - k * 2 ^ e| := by
    by_cases hk : k = m
    · rw [hk]
    · linarith [le_add_of_ne (n := q) hunit hk]
  -- any other double is a whole unit off, or below the doubles with this unit
  have hfar {v : ℚ} (hv : IsDouble v) (hne : v ≠ m * 2 ^ e) :
      2 ^ e ≤ |q - v| + |q - m * 2 ^ e| ∨ |q - m * 2 ^ e| < |q - v| := by
    rcases hv.multiple_or_lt e with ⟨k, rfl⟩ | hbelow
    · left
      apply le_add_of_ne hunit
      rintro rfl
      exact hne rfl
    · right
      calc |q - m * 2 ^ e| ≤ |q - (2 ^ 52 : ℕ) * 2 ^ e| := hother _
        _ = q - 2 ^ 52 * 2 ^ e := by
          push_cast
          exact abs_of_nonneg (by linarith)
        _ < q - v := by linarith
        _ ≤ |q - v| := le_abs_self _
  refine ⟨isNormal_ofMantissa hlow hfull, ?_, ?_⟩
  · intro v hv
    rw [value_ofMantissa]
    by_cases hne : v = m * 2 ^ e
    · rw [hne]
    · rcases hfar hv hne with h | h <;> linarith
  · intro v hv hne heq
    rw [value_ofMantissa] at hne heq
    have htie : m % 2 = 0 := heven (by rcases hfar hv hne with h | h <;> linarith)
    unfold Binary.ofMantissa
    split
    · show Nat.pow 2 52 % 2 = 0
      decide
    · exact htie

end Mantissa

/-! ### The double of an integer -/

/-- The multiple of a unit that is taken for a number is at most half a unit away, and if it is
just half a unit, it is an even one. -/
theorem roundDiv_spec (n : ℕ) {u : ℕ} (hu : 0 < u) :
    2 * |(n : ℤ) - roundDiv n u * u| ≤ u ∧
      (2 * |(n : ℤ) - roundDiv n u * u| = u → roundDiv n u % 2 = 0) := by
  have hr := Nat.mod_lt n hu
  have hn : (n : ℤ) = (n / u : ℕ) * u + (n % u : ℕ) := by exact_mod_cast (Nat.div_add_mod' n u).symm
  by_cases hdown : 2 * (n % u) < u ∨ (2 * (n % u) = u ∧ n / u % 2 = 0)
  · have hm : roundDiv n u = n / u := if_pos hdown
    have hdiff : (n : ℤ) - roundDiv n u * u = (n % u : ℕ) := by
      rw [hm]
      linarith
    rw [hdiff, Nat.abs_cast]
    omega
  · have hm : roundDiv n u = n / u + 1 := if_neg hdown
    have hdiff : (n : ℤ) - roundDiv n u * u = (n % u : ℕ) - u := by
      rw [hm]
      push_cast at hn ⊢
      linarith
    have habs : |((n % u : ℕ) : ℤ) - u| = u - (n % u : ℕ) := by
      rw [abs_of_nonpos (by omega), neg_sub]
    rw [hdiff, habs]
    omega

/-- A number between multiples of a unit is rounded to one that is between them as well. -/
theorem roundDiv_mem {n u low high : ℕ} (hu : 0 < u) (hlow : low * u ≤ n) (hhigh : n < high * u) :
    low ≤ roundDiv n u ∧ roundDiv n u ≤ high := by
  have h := (Nat.le_div_iff_mul_le hu).mpr hlow
  have h' := (Nat.div_lt_iff_lt_mul hu).mpr hhigh
  simp only [roundDiv]
  split <;> omega

/-- The unit of an integer's last bit, over the powers of two that make it an integer, leaves
53 bits. -/
theorem bounds_of_log2 {n : ℕ} (hn : 0 < n) {e : ℤ} (he : e = n.log2 - 52) :
    2 ^ 52 * 2 ^ e.toNat ≤ n * 2 ^ (-e).toNat ∧ n * 2 ^ (-e).toNat < 2 ^ 53 * 2 ^ e.toNat := by
  have hlow : 2 ^ n.log2 ≤ n := Nat.log2_self_le hn.ne'
  have hhigh : n < 2 ^ (n.log2 + 1) := Nat.lt_log2_self
  have hpos : 0 < 2 ^ (-e).toNat := Nat.two_pow_pos _
  constructor
  · calc 2 ^ 52 * 2 ^ e.toNat = 2 ^ n.log2 * 2 ^ (-e).toNat := by
          rw [← pow_add, ← pow_add]
          congr 1
          omega
      _ ≤ n * 2 ^ (-e).toNat := Nat.mul_le_mul_right _ hlow
  · calc n * 2 ^ (-e).toNat < 2 ^ (n.log2 + 1) * 2 ^ (-e).toNat :=
          Nat.mul_lt_mul_of_pos_right hhigh hpos
      _ = 2 ^ 53 * 2 ^ e.toNat := by
          rw [← pow_add, ← pow_add]
          congr 1
          omega

/-- The double of an integer is put together of its leading 53 bits, rounded. -/
theorem ofNat_eq {n : ℕ} (hn : 0 < n) : ∃ m : ℕ,
    Binary.ofNat n = .ofMantissa m ((n.log2 : ℤ) - 52) ∧ 2 ^ 52 ≤ m ∧ m ≤ 2 ^ 53 ∧
      2 * |(n : ℚ) - m * 2 ^ ((n.log2 : ℤ) - 52)| ≤ 2 ^ ((n.log2 : ℤ) - 52) ∧
      (2 * |(n : ℚ) - m * 2 ^ ((n.log2 : ℤ) - 52)| = 2 ^ ((n.log2 : ℤ) - 52) → m % 2 = 0) := by
  have hofNat : Binary.ofNat n = .ofMantissa (roundDiv (n * 2 ^ (-((n.log2 : ℤ) - 52)).toNat)
      (2 ^ ((n.log2 : ℤ) - 52).toNat)) ((n.log2 : ℤ) - 52) := by
    unfold Binary.ofNat
    rw [if_neg hn.ne']
    rfl
  obtain ⟨hlow, hhigh⟩ := bounds_of_log2 hn rfl
  generalize (n.log2 : ℤ) - 52 = e at *
  obtain ⟨hhalf, htie⟩ := roundDiv_spec (n * 2 ^ (-e).toNat) (Nat.two_pow_pos e.toNat)
  obtain ⟨hlow', hhigh'⟩ := roundDiv_mem (Nat.two_pow_pos _) hlow hhigh
  generalize roundDiv (n * 2 ^ (-e).toNat) (2 ^ e.toNat) = m at *
  -- the distance, in units
  have hdist : |(n : ℚ) - m * 2 ^ e| = |((n * 2 ^ (-e).toNat : ℕ) : ℤ) - m * (2 ^ e.toNat : ℕ)| /
      2 ^ (-e).toNat := by
    have hpos : (0 : ℚ) < 2 ^ (-e).toNat := by positivity
    rw [zpow_eq_div (by norm_num) e, eq_div_iff hpos.ne', Int.cast_abs, ← abs_of_pos hpos,
      ← abs_mul, abs_of_pos hpos]
    congr 1
    push_cast
    field_simp
  have hunit : (2 : ℚ) ^ e = ((2 ^ e.toNat : ℕ) : ℤ) / 2 ^ (-e).toNat := by
    rw [zpow_eq_div (by norm_num) e]
    push_cast
    rfl
  have hpos : (0 : ℚ) < 2 ^ (-e).toNat := by positivity
  refine ⟨m, hofNat, hlow', hhigh', ?_, ?_⟩
  · rw [hdist, hunit, mul_div_assoc', div_le_div_iff_of_pos_right hpos]
    exact_mod_cast hhalf
  · intro heq
    rw [hdist, hunit, mul_div_assoc', div_left_inj' hpos.ne'] at heq
    exact htie (by exact_mod_cast heq)

/-- The double nearest to an integer is taken for it; of two that are as near, the one with an even
mantissa. -/
theorem nearest_ofNat (n : ℕ) : (Binary.ofNat n).IsNearest n := by
  rcases Nat.eq_zero_or_pos n with rfl | hn
  · have hzero : (Binary.ofNat 0).value = 0 := by simp [Binary.ofNat, Binary.value]
    refine ⟨⟨by decide, .inl rfl⟩, ?_, fun _ _ _ _ => rfl⟩
    intro v _
    rw [hzero]
    simp
  · obtain ⟨m, hm, hlow, hfull, hhalf, heven⟩ := ofNat_eq hn
    rw [hm]
    refine isNearest_ofMantissa hlow hfull ?_ hhalf heven
    have hpow : (2 : ℚ) ^ n.log2 ≤ n := by exact_mod_cast Nat.log2_self_le hn.ne'
    calc (2 : ℚ) ^ 52 * 2 ^ ((n.log2 : ℤ) - 52) = 2 ^ n.log2 := by
          rw [← zpow_natCast, ← zpow_natCast, ← zpow_add₀ (by norm_num)]
          congr 1
          omega
      _ ≤ n := hpow

/-- An integer of at most 53 bits is a double. -/
theorem value_ofNat_of_lt {n : ℕ} (h : n < 2 ^ 53) : (Binary.ofNat n).value = n := by
  have hnearest := (nearest_ofNat n).nearest n ⟨n, 0, h, by simp⟩
  rw [sub_self, abs_zero] at hnearest
  linarith [abs_nonpos_iff.mp hnearest]

/-! ### One form for each value -/

/-- Between a double and the next multiple of its unit there is none. -/
theorem IsDouble.next_le {x : Binary} (hx : 2 ^ 52 ≤ x.mantissa) {v : ℚ} (hv : IsDouble v)
    (hlt : x.value < v) : (x.mantissa + 1 : ℕ) * 2 ^ x.exponent ≤ v := by
  have hunit : (0 : ℚ) < 2 ^ x.exponent := by positivity
  unfold Binary.value at hlt
  rcases hv.multiple_or_lt x.exponent with ⟨k, rfl⟩ | hbelow
  · have hk : x.mantissa < k := by exact_mod_cast lt_of_mul_lt_mul_right hlt hunit.le
    gcongr
    omega
  · have hx' : (2 : ℚ) ^ 52 ≤ x.mantissa := by exact_mod_cast hx
    have hle : (2 : ℚ) ^ 52 * 2 ^ x.exponent ≤ x.mantissa * 2 ^ x.exponent := by gcongr
    linarith

/-- A double has one mantissa in its form. -/
theorem Binary.IsNormal.mantissa_eq {x y : Binary} (hx : x.IsNormal) (hy : y.IsNormal)
    (h : x.value = y.value) : x.mantissa = y.mantissa := by
  have hzero {x : Binary} : x.value = 0 ↔ x.mantissa = 0 := by
    have hunit : (2 : ℚ) ^ x.exponent ≠ 0 := by positivity
    simp [Binary.value, hunit]
  rcases hx.full with hx0 | hxfull
  · rw [hx0, hzero.mp (h ▸ hzero.mpr hx0)]
  rcases hy.full with hy0 | hyfull
  · rw [hy0, hzero.mp (h ▸ hzero.mpr hy0)]
  -- a smaller exponent leaves less than the other one starts at
  have hnot {x y : Binary} (hx : x.mantissa < 2 ^ 53) (hy : 2 ^ 52 ≤ y.mantissa)
      (h : x.value = y.value) : ¬ x.exponent < y.exponent := by
    intro hlt
    have hpow : (2 : ℚ) ^ x.exponent ≤ 2 ^ (y.exponent - 1) :=
      zpow_le_zpow_right₀ (by norm_num) (by omega)
    have hx' : (x.mantissa : ℚ) < 2 ^ 53 := by exact_mod_cast hx
    have hy' : (2 : ℚ) ^ 52 ≤ y.mantissa := by exact_mod_cast hy
    have hless : x.value < y.value := by
      calc (x.mantissa : ℚ) * 2 ^ x.exponent ≤ x.mantissa * 2 ^ (y.exponent - 1) := by gcongr
        _ < 2 ^ 53 * 2 ^ (y.exponent - 1) := by gcongr
        _ = 2 ^ 52 * 2 ^ y.exponent := by
          rw [two_zpow_eq y.exponent]
          ring
        _ ≤ y.mantissa * 2 ^ y.exponent := by gcongr
    exact hless.ne h
  have hexponent : x.exponent = y.exponent :=
    le_antisymm (not_lt.mp (hnot hy.lt hxfull h.symm)) (not_lt.mp (hnot hx.lt hyfull h))
  have hunit : (2 : ℚ) ^ y.exponent ≠ 0 := by positivity
  unfold Binary.value at h
  rw [hexponent, mul_left_inj' hunit] at h
  exact_mod_cast h

/-- Of two doubles that are as near to a number, one above the other, one mantissa is odd. -/
theorem not_isNearest_of_lt {x y : Binary} {q : ℚ} (hx : x.IsNearest q) (hy : y.IsNearest q) :
    ¬ x.value < y.value := by
  intro hlt
  have heq : |q - x.value| = |q - y.value| :=
    le_antisymm (hx.nearest _ hy.normal.isDouble) (hy.nearest _ hx.normal.isDouble)
  have hxeven := hx.even _ hy.normal.isDouble hlt.ne' heq.symm
  have hyeven := hy.even _ hx.normal.isDouble hlt.ne heq
  have hmiddle : 2 * q = x.value + y.value := by
    rcases abs_eq_abs.mp heq with h | h <;> linarith
  -- nothing lies between them, so the upper one is the next
  have hbetween {v : ℚ} (hv : IsDouble v) (hxv : x.value < v) (hvy : v ≤ y.value) :
      v = y.value := by
    by_contra hne
    have hvy' : v < y.value := lt_of_le_of_ne hvy hne
    have hnear := hx.nearest v hv
    rw [abs_of_nonneg (by linarith)] at hnear
    rcases abs_cases (q - v) with h | h <;> linarith
  rcases hx.normal.full with hzero | hfull
  · -- above zero there is always a smaller double
    have hxzero : x.value = 0 := by simp [Binary.value, hzero]
    have hhalf : IsDouble (y.value / 2) := by
      refine ⟨y.mantissa, y.exponent - 1, hy.normal.lt, ?_⟩
      rw [Binary.value, two_zpow_eq y.exponent]
      ring
    have := hbetween hhalf (by linarith) (by linarith)
    linarith
  · have hle := IsDouble.next_le hfull hy.normal.isDouble hlt
    have hodd : x.mantissa + 1 < 2 ^ 53 := by
      have := hx.normal.lt
      omega
    have hnext : (x.mantissa + 1 : ℕ) * 2 ^ x.exponent = y.value := by
      refine hbetween ⟨_, _, hodd, rfl⟩ ?_ hle
      unfold Binary.value
      gcongr
      omega
    have hnormal : (⟨x.mantissa + 1, x.exponent, false⟩ : Binary).IsNormal :=
      ⟨hodd, .inr (by simp only; omega)⟩
    have hmantissa := hnormal.mantissa_eq hy.normal hnext
    simp only at hmantissa
    omega

/-- One double is the nearest to a number. -/
theorem Binary.IsNearest.unique {x y : Binary} {q : ℚ} (hx : x.IsNearest q) (hy : y.IsNearest q) :
    x.value = y.value :=
  le_antisymm (not_lt.mp (not_isNearest_of_lt hy hx)) (not_lt.mp (not_isNearest_of_lt hx hy))

/-- Which numbers a double is nearest to hangs on its value. -/
theorem Binary.IsNearest.congr {x y : Binary} {q : ℚ} (hx : x.IsNearest q) (hy : y.IsNormal)
    (h : x.value = y.value) : y.IsNearest q := by
  refine ⟨hy, ?_, ?_⟩
  · rw [← h]
    exact hx.nearest
  · rw [← h, ← hx.normal.mantissa_eq hy h]
    exact hx.even

end CacheWarden.Decimal
