import CacheWarden.Proofs.Decimal.Interval
import CacheWarden.Proofs.Text.Numeral
import Mathlib
/-!
The shortest decimal of a double.

Of the decimals that read back one is taken that has the fewest digits, and of those the
nearest (`isShortest_shortest`).  The grids are tried from the large powers of ten down,
starting at the leading digit (`magnitude_spec`).  On a grid the value's two neighbours
decide: if neither reads back, nothing on the grid does (`onGrid?_eq_none`), and otherwise
the nearer one is taken (`onGrid?_eq_some`).  Seventeen digits are always enough
(`isSome_onGrid?`).  A decimal with fewer digits that is on no coarser grid is below the
power of ten of the leading digit, so that one would read back as well, and be on a coarser
grid.

No other decimal is like that (`Scaled.IsShortest.unique`), so what is shown of an integer is
settled (`ShowsNearest.unique`), and it is the integer itself if that has at most 53 bits
(`plainNearest_of_lt`).
-/

namespace CacheWarden.Decimal

open Text

/-! ### Digits -/

namespace Scaled

/-- How many digits a decimal has. -/
def size (d : Scaled) : ℕ := (decimal d.digits).length

theorem size_pos (d : Scaled) : 0 < d.size := by
  rw [size, decimal_eq, List.length_map]
  exact List.length_pos_of_ne_nil (bigDigits_ne_nil 10 d.digits)

theorem size_le_iff {d : Scaled} {k : ℕ} (hk : 0 < k) : d.size ≤ k ↔ d.digits < 10 ^ k := by
  rw [size, decimal_eq, List.length_map]
  unfold bigDigits
  split
  · rename_i hzero
    rw [hzero]
    simp only [List.length_singleton]
    exact iff_of_true hk (by positivity)
  · rw [List.length_reverse, Nat.digits_length_le_iff (by decide)]

theorem digits_lt (d : Scaled) : d.digits < 10 ^ d.size := (size_le_iff d.size_pos).mp le_rfl

/-- The leading digit is none for zero only. -/
theorem le_digits {d : Scaled} (h : 0 < d.digits) : 10 ^ (d.size - 1) ≤ d.digits := by
  by_contra hlt
  rcases Nat.eq_zero_or_pos (d.size - 1) with hone | hpos
  · rw [hone] at hlt
    omega
  · have := (size_le_iff hpos).mpr (not_le.mp hlt)
    omega

/-- A decimal is below the power of ten after its leading digit. -/
theorem value_lt {d : Scaled} {k : ℕ} {i : ℤ} (hd : d.digits < 10 ^ k) (hi : k + d.exponent ≤ i) :
    d.value < 10 ^ i := by
  have hd' : (d.digits : ℚ) < 10 ^ k := by exact_mod_cast hd
  calc d.value < 10 ^ k * 10 ^ d.exponent := mul_lt_mul_of_pos_right hd' (by positivity)
    _ = 10 ^ (k + d.exponent) := by rw [zpow_add₀ (by norm_num), zpow_natCast]
    _ ≤ 10 ^ i := zpow_le_zpow_right₀ (by norm_num) hi

/-- A decimal is on the grids below its exponent. -/
theorem exists_value_eq {d : Scaled} {e : ℤ} (he : e ≤ d.exponent) :
    ∃ m : ℕ, d.value = m * 10 ^ e := by
  obtain ⟨j, hj⟩ : ∃ j : ℕ, d.exponent = e + j := ⟨(d.exponent - e).toNat, by omega⟩
  refine ⟨d.digits * 10 ^ j, ?_⟩
  rw [value, hj, zpow_add₀ (by norm_num), zpow_natCast]
  push_cast
  ring

/-- A decimal is known by its value and its size, unless it is zero. -/
theorem eq_of_value_eq {c d : Scaled} (hc : 0 < c.digits) (hvalue : c.value = d.value)
    (hsize : c.size = d.size) : c = d := by
  have hd : 0 < d.digits := by
    by_contra hzero
    have : 0 < c.value := mul_pos (by exact_mod_cast hc) (by positivity)
    rw [hvalue, value, Nat.eq_zero_of_not_pos hzero] at this
    simp at this
  -- with a smaller exponent it would be below the other one
  have hnot {c d : Scaled} (hd : 0 < d.digits) (hvalue : c.value = d.value)
      (hsize : c.size = d.size) : ¬ c.exponent < d.exponent := by
    intro hlt
    have hpos := c.size_pos
    have hless : c.value < 10 ^ ((d.size - 1 : ℕ) + d.exponent) :=
      value_lt c.digits_lt (by omega)
    rw [zpow_add₀ (by norm_num), zpow_natCast] at hless
    have hd' : (10 : ℚ) ^ (d.size - 1) ≤ d.digits := by exact_mod_cast le_digits hd
    have hle : (10 : ℚ) ^ (d.size - 1) * 10 ^ d.exponent ≤ d.value :=
      mul_le_mul_of_nonneg_right hd' (by positivity)
    linarith
  have hexponent : c.exponent = d.exponent :=
    le_antisymm (not_lt.mp (hnot hc hvalue.symm hsize.symm)) (not_lt.mp (hnot hd hvalue hsize))
  have hunit : (10 : ℚ) ^ d.exponent ≠ 0 := by positivity
  rw [value, value, hexponent, mul_left_inj' hunit] at hvalue
  obtain ⟨digits, exponent⟩ := c
  simp only at hexponent hvalue
  rw [hexponent, Nat.cast_inj.mp hvalue]

end Scaled

/-! ### What is the shortest -/

/-- A decimal is nearer to a double than another one, or it is as near and above it. -/
def Scaled.IsNearer (x : Binary) (d c : Scaled) : Prop :=
  |x.value - d.value| < |x.value - c.value| ∨
    (|x.value - d.value| = |x.value - c.value| ∧ c.value < d.value)

/-- Of two decimals one rounds to a double, and it is the nearer if the other one does as well. -/
def Scaled.IsTaken (x : Binary) (d c : Scaled) : Prop :=
  x.IsNearest d.value ∧ (x.IsNearest c.value → d.IsNearer x c)

/-- Of the decimals that round to a double, one with the fewest digits and nearer than the others
with as few. -/
structure Scaled.IsShortest (d : Scaled) (x : Binary) : Prop where
  rounds : x.IsNearest d.value
  fewest : ∀ c : Scaled, x.IsNearest c.value → d.size ≤ c.size
  nearer : ∀ c : Scaled, x.IsNearest c.value → c.size = d.size → c.value ≠ d.value →
    d.IsNearer x c
  /-- Zero has no zeros behind it. -/
  zero : d.digits = 0 → d.exponent = 0

theorem Scaled.IsNearer.asymm {x : Binary} {c d : Scaled} (h : d.IsNearer x c) :
    ¬ c.IsNearer x d := by
  rintro (h' | ⟨heq', hlt'⟩) <;> rcases h with h | ⟨heq, hlt⟩ <;> linarith

/-- There is one shortest decimal. -/
theorem Scaled.IsShortest.unique {x : Binary} {c d : Scaled} (hc : c.IsShortest x)
    (hd : d.IsShortest x) : c = d := by
  have hsize : c.size = d.size := le_antisymm (hc.fewest d hd.rounds) (hd.fewest c hc.rounds)
  have hvalue : c.value = d.value := by
    by_contra hne
    exact (hc.nearer d hd.rounds hsize.symm (Ne.symm hne)).asymm
      (hd.nearer c hc.rounds hsize hne)
  rcases Nat.eq_zero_or_pos c.digits with hzero | hpos
  · have hdzero : d.digits = 0 := by
      have hunit : (10 : ℚ) ^ d.exponent ≠ 0 := by positivity
      rw [value, value, hzero, Nat.cast_zero, zero_mul, eq_comm, mul_eq_zero] at hvalue
      exact_mod_cast hvalue.resolve_right hunit
    have hexponent := (hc.zero hzero).trans (hd.zero hdzero).symm
    obtain ⟨digits, exponent⟩ := c
    simp only at hexponent hzero
    rw [hexponent, hzero, ← hdzero]
  · exact Scaled.eq_of_value_eq hpos hvalue hsize

/-- The shortest decimal hangs on the value of the double. -/
theorem Scaled.IsShortest.congr {x y : Binary} {d : Scaled} (h : d.IsShortest x) (hy : y.IsNormal)
    (hvalue : x.value = y.value) : d.IsShortest y := by
  have hx := h.rounds.normal
  refine ⟨h.rounds.congr hy hvalue, fun c hc => h.fewest c (hc.congr hx hvalue.symm), ?_, h.zero⟩
  intro c hc hsize hne
  unfold Scaled.IsNearer
  rw [← hvalue]
  exact h.nearer c (hc.congr hx hvalue.symm) hsize hne

namespace Binary

variable {x : Binary} {d : Scaled}

/-! ### The power of ten above -/

/-- The estimate by the binary logarithm is off by less than three, over all exponents. -/
theorem estimate_bounds : ∀ l : ℕ, l < 2046 →
    compareScaled 1 (((l : ℤ) - 1022) * 30103 / 100000 - 3) 1 ((l : ℤ) - 1022) ≠ .gt ∧
      compareScaled 1 (((l : ℤ) - 1022) * 30103 / 100000 + 3) 1 ((l : ℤ) - 1021) ≠ .lt := by
  decide +kernel

/-- A double is between the powers of two that its exponent gives. -/
theorem IsFull.value_mem (hx : x.IsFull) :
    (2 : ℚ) ^ (52 + x.exponent) ≤ x.value ∧ x.value < 2 ^ (53 + x.exponent) := by
  have hunit : (0 : ℚ) < 2 ^ x.exponent := by positivity
  have hlow : (2 : ℚ) ^ 52 ≤ x.mantissa := by exact_mod_cast hx.low
  have hhigh : (x.mantissa : ℚ) < 2 ^ 53 := by exact_mod_cast hx.high
  rw [zpow_add₀ (by norm_num), zpow_add₀ (by norm_num)]
  exact ⟨mul_le_mul_of_nonneg_right hlow hunit.le, mul_lt_mul_of_pos_right hhigh hunit⟩

/-- The magnitude is the power of ten above the leading digit. -/
theorem magnitude_spec (hx : x.IsFull) :
    (10 : ℚ) ^ (x.magnitude - 1) ≤ x.value ∧ x.value < 10 ^ x.magnitude := by
  have hfits (k : ℤ) : (compareScaled 1 k x.mantissa x.exponent == .gt) = true ↔
      x.value < 10 ^ k := by
    rw [beq_iff_eq, (compareScaled_spec _ _ _ _).2.2, Nat.cast_one, one_mul]
    rfl
  have hlog : x.mantissa.log2 = 52 :=
    (Nat.log2_eq_iff (by have := hx.low; omega)).mpr ⟨hx.low, hx.high⟩
  obtain ⟨l, hl⟩ : ∃ l : ℕ, 52 + x.exponent = l - 1022 :=
    ⟨(x.exponent + 1074).toNat, by have := hx.range; omega⟩
  obtain ⟨hlow, hhigh⟩ := estimate_bounds l (by have := hx.range; omega)
  obtain ⟨hvlow, hvhigh⟩ := hx.value_mem
  rw [hl] at hvlow
  rw [show 53 + x.exponent = (l : ℤ) - 1021 by omega] at hvhigh
  rw [Ne, (compareScaled_spec _ _ _ _).2.2, not_lt, Nat.cast_one, one_mul, one_mul] at hlow
  rw [Ne, (compareScaled_spec _ _ _ _).1, not_lt, Nat.cast_one, one_mul, one_mul] at hhigh
  simp only [magnitude, hlog, show ((52 : ℕ) : ℤ) + x.exponent = l - 1022 from hl]
  generalize ((l : ℤ) - 1022) * 30103 / 100000 = guess at *
  rw [List.find?_map]
  rcases hfind : (List.range 6).find? _ with - | i
  · -- the last one fits
    have hnone := List.find?_range_eq_none.mp hfind 5 (by decide)
    simp only [Function.comp_apply, Bool.not_eq_true', ← Bool.not_eq_true, hfits] at hnone
    rw [show guess - 2 + ((5 : ℕ) : ℤ) = guess + 3 by push_cast; ring] at hnone
    exact absurd (hvhigh.trans_le hhigh) hnone
  · obtain ⟨hi, -, hbefore⟩ := List.find?_range_eq_some.mp hfind
    simp only [Function.comp_apply, Bool.not_eq_true', ← Bool.not_eq_true, hfits] at hi hbefore
    simp only [Option.map_some, Option.getD_some]
    refine ⟨?_, hi⟩
    rcases i with - | i
    · rw [show guess - 2 + ((0 : ℕ) : ℤ) - 1 = guess - 3 by push_cast; ring]
      exact hlow.trans hvlow
    · rw [show guess - 2 + ((i + 1 : ℕ) : ℤ) - 1 = guess - 2 + i by push_cast; ring]
      exact not_lt.mp (hbefore i (Nat.lt_succ_self i))

/-! ### One grid -/

/-- A value lies between its neighbours on a grid. -/
theorem floorAt_spec (x : Binary) (e : ℤ) :
    (x.floorAt e : ℚ) * 10 ^ e ≤ x.value ∧ x.value < (x.floorAt e + 1 : ℕ) * 10 ^ e := by
  have hvalue : x.value = (x.mantissa * 2 ^ x.exponent.toNat * 10 ^ (-e).toNat : ℕ) /
      (2 ^ (-x.exponent).toNat * 10 ^ e.toNat : ℕ) * 10 ^ e := by
    rw [value, zpow_eq_div (by norm_num) x.exponent, zpow_eq_div (by norm_num) e]
    push_cast
    field_simp
  have hpos : 0 < 2 ^ (-x.exponent).toNat * 10 ^ e.toNat := by positivity
  have hpos' : (0 : ℚ) < (2 ^ (-x.exponent).toNat * 10 ^ e.toNat : ℕ) := by exact_mod_cast hpos
  have hunit : (0 : ℚ) < 10 ^ e := by positivity
  have hfloor : x.floorAt e = x.mantissa * 2 ^ x.exponent.toNat * 10 ^ (-e).toNat /
    (2 ^ (-x.exponent).toNat * 10 ^ e.toNat) := rfl
  rw [hfloor, hvalue]
  generalize x.mantissa * 2 ^ x.exponent.toNat * 10 ^ (-e).toNat = a
  generalize 2 ^ (-x.exponent).toNat * 10 ^ e.toNat = b at hpos hpos'
  constructor
  · refine mul_le_mul_of_nonneg_right ?_ hunit.le
    rw [le_div_iff₀ hpos']
    exact_mod_cast Nat.div_mul_le_self a b
  · refine mul_lt_mul_of_pos_right ?_ hunit
    rw [div_lt_iff₀ hpos']
    exact_mod_cast Nat.lt_mul_of_div_lt (Nat.lt_succ_self _) hpos

section Grid

variable {e : ℤ}

/-- A multiple of the unit that is no neighbour of the value is farther than one of them, which
reads back if the multiple does. -/
theorem beyond_neighbours (hx : x.IsFull) {m : ℕ} (hm : x.IsNearest (m * 10 ^ e))
    (hlow : m ≠ x.floorAt e) (hhigh : m ≠ x.floorAt e + 1) :
    ∃ n : ℕ, (n = x.floorAt e ∨ n = x.floorAt e + 1) ∧ x.IsNearest (n * 10 ^ e) ∧
      |x.value - n * 10 ^ e| < |x.value - m * 10 ^ e| := by
  obtain ⟨hbelow, habove⟩ := x.floorAt_spec e
  have hunit : (0 : ℚ) < 10 ^ e := by positivity
  have hself := hx.accepts_iff_isNearest.mpr hx.isNormal.isNearest_self
  rw [← hx.accepts_iff_isNearest] at hm
  rcases lt_or_gt_of_ne hlow with hlt | hgt
  · have hstep : (m : ℚ) * 10 ^ e < x.floorAt e * 10 ^ e :=
      mul_lt_mul_of_pos_right (by exact_mod_cast hlt) hunit
    refine ⟨x.floorAt e, .inl rfl, ?_, ?_⟩
    · exact hx.accepts_iff_isNearest.mp (hm.convex hself hstep.le hbelow)
    · rw [abs_of_nonneg (by linarith), abs_of_nonneg (by linarith)]
      linarith
  · have hstep : ((x.floorAt e + 1 : ℕ) : ℚ) * 10 ^ e < m * 10 ^ e :=
      mul_lt_mul_of_pos_right (by exact_mod_cast (by omega : x.floorAt e + 1 < m)) hunit
    refine ⟨x.floorAt e + 1, .inr rfl, ?_, ?_⟩
    · exact hx.accepts_iff_isNearest.mp (hself.convex hm habove.le hstep.le)
    · rw [abs_of_neg (by linarith), abs_of_neg (by linarith)]
      linarith

/-- If no neighbour on a grid reads back, nothing on it does. -/
theorem onGrid?_eq_none (hx : x.IsFull) (h : x.onGrid? .up e = none) (m : ℕ) :
    ¬ x.IsNearest (m * 10 ^ e) := by
  have hneighbours : ¬ x.IsNearest (x.floorAt e * 10 ^ e) ∧
      ¬ x.IsNearest ((x.floorAt e + 1 : ℕ) * 10 ^ e) := by
    change ¬ x.IsNearest (⟨x.floorAt e, e⟩ : Scaled).value ∧
      ¬ x.IsNearest (⟨x.floorAt e + 1, e⟩ : Scaled).value
    rw [← hx.readsBack_iff_isNearest, ← hx.readsBack_iff_isNearest]
    unfold onGrid? at h
    grind
  intro hm
  have hlow : m ≠ x.floorAt e := by
    rintro rfl
    exact hneighbours.1 hm
  have hhigh : m ≠ x.floorAt e + 1 := by
    rintro rfl
    exact hneighbours.2 hm
  obtain ⟨n, rfl | rfl, hn, -⟩ := beyond_neighbours hx hm hlow hhigh
  · exact hneighbours.1 hn
  · exact hneighbours.2 hn

/-- Of the two neighbours that one is taken that reads back, or if both do, the nearer. -/
theorem taken_of_onGrid? (hx : x.IsFull) (h : x.onGrid? .up e = some d) :
    (d = ⟨x.floorAt e, e⟩ ∧ d.IsTaken x ⟨x.floorAt e + 1, e⟩) ∨
      (d = ⟨x.floorAt e + 1, e⟩ ∧ d.IsTaken x ⟨x.floorAt e, e⟩) := by
  obtain ⟨hbelow, habove⟩ := x.floorAt_spec e
  have hlow := hx.readsBack_iff_isNearest ⟨x.floorAt e, e⟩
  have hhigh := hx.readsBack_iff_isNearest ⟨x.floorAt e + 1, e⟩
  have hmiddle := compareScaled_spec (2 * x.floorAt e + 1) e (2 * x.mantissa) x.exponent
  rw [show ((2 * x.floorAt e + 1 : ℕ) : ℚ) * 10 ^ e
      = x.floorAt e * 10 ^ e + (x.floorAt e + 1 : ℕ) * 10 ^ e by push_cast; ring,
    show ((2 * x.mantissa : ℕ) : ℚ) * 2 ^ x.exponent = 2 * x.value by
      rw [value]; push_cast; ring] at hmiddle
  have hdlow : |x.value - x.floorAt e * 10 ^ e| = x.value - x.floorAt e * 10 ^ e :=
    abs_of_nonneg (by linarith)
  have hdhigh : |x.value - (x.floorAt e + 1 : ℕ) * 10 ^ e|
      = (x.floorAt e + 1 : ℕ) * 10 ^ e - x.value := by
    rw [abs_of_neg (by linarith), neg_sub]
  unfold onGrid? at h
  rcases hl : x.readsBack ⟨x.floorAt e, e⟩ with - | - <;>
    rcases hh : x.readsBack ⟨x.floorAt e + 1, e⟩ with - | - <;> simp only [hl, hh] at h
  · cases h
  · refine .inr ⟨(Option.some.inj h).symm, Option.some.inj h ▸ hhigh.mp hh, fun hback => ?_⟩
    rw [hlow.mpr hback] at hl
    cases hl
  · refine .inl ⟨(Option.some.inj h).symm, Option.some.inj h ▸ hlow.mp hl, fun hback => ?_⟩
    rw [hhigh.mpr hback] at hh
    cases hh
  · -- both do, so the midpoint decides
    rcases hcompare : compareScaled (2 * x.floorAt e + 1) e (2 * x.mantissa) x.exponent
      with - | - | - <;> simp only [hcompare] at h <;> obtain rfl := Option.some.inj h
    · have hlt := hmiddle.1.mp hcompare
      refine .inr ⟨rfl, hhigh.mp hh, fun _ => .inl ?_⟩
      simp only [Scaled.value, hdlow, hdhigh]
      linarith
    · have heq := hmiddle.2.1.mp hcompare
      refine .inr ⟨rfl, hhigh.mp hh, fun _ => .inr ?_⟩
      simp only [Scaled.value, hdlow, hdhigh]
      constructor <;> linarith
    · have hgt := hmiddle.2.2.mp hcompare
      refine .inl ⟨rfl, hlow.mp hl, fun _ => .inl ?_⟩
      simp only [Scaled.value, hdlow, hdhigh]
      linarith

/-- What is taken on a grid rounds to the double, and it is the nearest on the grid that does. -/
theorem onGrid?_eq_some (hx : x.IsFull) (h : x.onGrid? .up e = some d) :
    d.exponent = e ∧ x.IsNearest d.value ∧ (d.digits = x.floorAt e ∨ d.digits = x.floorAt e + 1) ∧
      ∀ m : ℕ, x.IsNearest (m * 10 ^ e) → m ≠ d.digits → d.IsNearer x ⟨m, e⟩ := by
  -- a multiple that is no neighbour is farther than a neighbour
  have hall {k : ℕ} (hd : d = ⟨d.digits, e⟩) (htaken : d.IsTaken x ⟨k, e⟩)
      (hneighbours : ∀ n : ℕ, n = x.floorAt e ∨ n = x.floorAt e + 1 ↔ n = d.digits ∨ n = k)
      (m : ℕ) (hm : x.IsNearest (m * 10 ^ e)) (hne : m ≠ d.digits) : d.IsNearer x ⟨m, e⟩ := by
    have hk {n : ℕ} (hn : n = d.digits ∨ n = k) (hback : x.IsNearest (n * 10 ^ e)) :
        n = d.digits ∨ d.IsNearer x ⟨n, e⟩ := by
      rcases hn with hn | rfl
      · exact .inl hn
      · exact .inr (htaken.2 hback)
    by_cases hneighbour : m = x.floorAt e ∨ m = x.floorAt e + 1
    · exact (hk ((hneighbours m).mp hneighbour) hm).resolve_left hne
    · rw [not_or] at hneighbour
      obtain ⟨n, hn, hback, hfar⟩ := beyond_neighbours hx hm hneighbour.1 hneighbour.2
      left
      rcases hk ((hneighbours n).mp hn) hback with rfl | hnearer | ⟨heq, -⟩
      · rw [hd]
        exact hfar
      · exact hnearer.trans hfar
      · exact heq.trans_lt hfar
  rcases taken_of_onGrid? hx h with ⟨hd, htaken⟩ | ⟨hd, htaken⟩
  · exact ⟨by rw [hd], htaken.1, .inl (by rw [hd]), hall (by rw [hd]) htaken (by rw [hd]; simp)⟩
  · exact ⟨by rw [hd], htaken.1, .inr (by rw [hd]),
      hall (by rw [hd]) htaken (by rw [hd]; simp [or_comm])⟩

end Grid

/-! ### All grids -/

/-- Seventeen digits are enough: their unit is smaller than the gap between doubles. -/
theorem isSome_onGrid? (hx : x.IsFull) : (x.onGrid? .up (x.magnitude - 17)).isSome := by
  by_contra hnone
  have hnothing := onGrid?_eq_none hx (Option.not_isSome_iff_eq_none.mp hnone)
  have hlower := hnothing (x.floorAt (x.magnitude - 17))
  have hupper := hnothing (x.floorAt (x.magnitude - 17) + 1)
  obtain ⟨hbelow, habove⟩ := x.floorAt_spec (x.magnitude - 17)
  obtain ⟨hmagnitude, -⟩ := magnitude_spec hx
  rw [show x.magnitude - 1 = 16 + (x.magnitude - 17) by ring, zpow_add₀ (by norm_num)] at hmagnitude
  have hgap : (0 : ℚ) < 2 ^ x.exponent := by positivity
  have hin {q : ℚ} (hlow : x.lowEnd < q) (hhigh : q < x.highEnd) : x.IsNearest q :=
    hx.accepts_iff_isNearest.mp ⟨.inl hlow, .inl hhigh⟩
  have hhigh := x.highEnd_eq
  -- the neighbours are a unit apart
  have hnext : ((x.floorAt (x.magnitude - 17) + 1 : ℕ) : ℚ) * 10 ^ (x.magnitude - 17)
      = x.floorAt (x.magnitude - 17) * 10 ^ (x.magnitude - 17) + 10 ^ (x.magnitude - 17) := by
    push_cast
    ring
  rw [hnext] at habove hupper
  generalize (x.floorAt (x.magnitude - 17) : ℚ) * 10 ^ (x.magnitude - 17) = below at *
  generalize (10 : ℚ) ^ (x.magnitude - 17) = unit at *
  by_cases htight : x.mantissa = 2 ^ 52
  · -- the neighbour above is less than half a gap away
    have hlow := hx.lowEnd_eq_of_tight htight
    have hpos : (0 : ℚ) < 2 ^ (x.exponent - 1) := by positivity
    have hvalue : x.value = 2 ^ 52 * 2 ^ x.exponent := by
      rw [value, htight]
      push_cast
      rfl
    exact hupper (hin (by linarith) (by linarith))
  · -- one of the neighbours is
    have hlow := hx.lowEnd_eq_of_ne htight
    have hvalue : x.value < 2 ^ 53 * 2 ^ x.exponent :=
      mul_lt_mul_of_pos_right (by exact_mod_cast hx.high) hgap
    rcases le_total (x.value - below) (below + unit - x.value) with h | h
    · exact hlower (hin (by linarith) (by linarith))
    · exact hupper (hin (by linarith) (by linarith))

section Search

variable {e : ℤ}

/-- The power of ten of the leading digit reads back if a decimal below it does. -/
theorem isNearest_leading (hx : x.IsFull) {c : Scaled} (hc : x.IsNearest c.value)
    (hlt : c.value < 10 ^ (x.magnitude - 1)) : x.IsNearest (10 ^ (x.magnitude - 1)) := by
  have hself := hx.accepts_iff_isNearest.mpr hx.isNormal.isNearest_self
  rw [← hx.accepts_iff_isNearest] at hc ⊢
  exact hc.convex hself hlt.le (magnitude_spec hx).1

/-- If nothing reads back on the next coarser grid, a decimal that does has all the digits from the
leading one to the grid. -/
theorem lt_size (hx : x.IsFull) {c : Scaled} (hc : x.IsNearest c.value)
    (hcoarser : ∀ m : ℕ, ¬ x.IsNearest (m * 10 ^ (e + 1))) : x.magnitude - 1 - e < c.size := by
  by_contra hsize
  rcases Int.lt_or_le e c.exponent with he | he
  · obtain ⟨m, hm⟩ := Scaled.exists_value_eq (d := c) (e := e + 1) (by omega)
    exact hcoarser m (hm ▸ hc)
  · have hleading := isNearest_leading hx hc (Scaled.value_lt c.digits_lt (by omega))
    obtain ⟨m, hm⟩ := Scaled.exists_value_eq (d := ⟨1, x.magnitude - 1⟩) (e := e + 1) (by
      have := c.size_pos
      simp only
      omega)
    rw [Scaled.value, Nat.cast_one, one_mul] at hm
    exact hcoarser m (hm ▸ hleading)

/-- What is taken on a grid is nearer than all that have no more digits. -/
theorem isNearer_of_onGrid? (hx : x.IsFull) (he : e ≤ x.magnitude - 1)
    (h : x.onGrid? .up e = some d) {c : Scaled} (hc : x.IsNearest c.value)
    (hsize : c.size ≤ x.magnitude - e) (hne : c.value ≠ d.value) : d.IsNearer x c := by
  obtain ⟨hexponent, -, -, hnearest⟩ := onGrid?_eq_some hx h
  -- what is on the grid
  have hgrid {b : Scaled} (hb : x.IsNearest b.value) (heb : e ≤ b.exponent)
      (hne : b.value ≠ d.value) : d.IsNearer x b := by
    obtain ⟨m, hm⟩ := Scaled.exists_value_eq heb
    have hmne : m ≠ d.digits := by
      rintro rfl
      rw [← hexponent] at hm
      exact hne hm
    have hnearer := hnearest m (hm ▸ hb) hmne
    unfold Scaled.IsNearer at hnearer ⊢
    rwa [hm]
  by_cases hec : e ≤ c.exponent
  · exact hgrid hc hec hne
  · -- anything else is below the power of ten of the leading digit
    have hlt : c.value < 10 ^ (x.magnitude - 1) := Scaled.value_lt c.digits_lt (by omega)
    have hle := (magnitude_spec hx).1
    have hleading : (⟨1, x.magnitude - 1⟩ : Scaled).value = 10 ^ (x.magnitude - 1) := by
      rw [Scaled.value, Nat.cast_one, one_mul]
    have hfar : |x.value - 10 ^ (x.magnitude - 1)| < |x.value - c.value| := by
      rw [abs_of_nonneg (by linarith), abs_of_nonneg (by linarith)]
      linarith
    left
    by_cases heq : (⟨1, x.magnitude - 1⟩ : Scaled).value = d.value
    · rw [← heq, hleading]
      exact hfar
    · have hnearer := hgrid (b := ⟨1, x.magnitude - 1⟩)
        (hleading ▸ isNearest_leading hx hc hlt) he heq
      unfold Scaled.IsNearer at hnearer
      rw [hleading] at hnearer
      rcases hnearer with h | ⟨h, -⟩ <;> linarith

end Search

/-- Digits that do not end in a zero are left as they are. -/
theorem strip_eq (fuel : ℕ) (h : d.digits % 10 ≠ 0) : d.strip fuel = d := by
  cases fuel with
  | zero => rfl
  | succ fuel => rw [Scaled.strip, if_neg fun hd => h hd.2]

theorem strip_ten (e : ℤ) : (⟨10, e⟩ : Scaled).strip 400 = ⟨1, e + 1⟩ := by
  simp [Scaled.strip]

/-- What a grid has between a power of ten and the next has so many digits. -/
theorem digits_mem (hx : x.IsFull) {j : ℕ} (h : x.onGrid? .up (x.magnitude - 1 - j) = some d) :
    10 ^ j ≤ d.digits ∧ d.digits ≤ 10 ^ (j + 1) := by
  obtain ⟨hbelow, habove⟩ := x.floorAt_spec (x.magnitude - 1 - j)
  obtain ⟨hlow, hhigh⟩ := magnitude_spec hx
  have hunit : (0 : ℚ) < 10 ^ (x.magnitude - 1 - j) := by positivity
  have hlow' : (10 ^ j : ℕ) * (10 : ℚ) ^ (x.magnitude - 1 - j) = 10 ^ (x.magnitude - 1) := by
    rw [Nat.cast_pow, Nat.cast_ofNat, ← zpow_natCast, ← zpow_add₀ (by norm_num)]
    congr 1
    ring
  have hhigh' : (10 ^ (j + 1) : ℕ) * (10 : ℚ) ^ (x.magnitude - 1 - j) = 10 ^ x.magnitude := by
    rw [Nat.cast_pow, Nat.cast_ofNat, ← zpow_natCast, ← zpow_add₀ (by norm_num)]
    congr 1
    push_cast
    ring
  rw [← hlow'] at hlow
  rw [← hhigh'] at hhigh
  have hfloor : 10 ^ j < x.floorAt (x.magnitude - 1 - j) + 1 := by
    exact_mod_cast lt_of_mul_lt_mul_right (hlow.trans_lt habove) hunit.le
  have hfloor' : x.floorAt (x.magnitude - 1 - j) < 10 ^ (j + 1) := by
    exact_mod_cast lt_of_mul_lt_mul_right (hbelow.trans_lt hhigh) hunit.le
  obtain ⟨-, -, hdigits, -⟩ := onGrid?_eq_some hx h
  omega

section First

variable {j : ℕ} (hx : x.IsFull) (h : x.onGrid? .up (x.magnitude - 1 - j) = some d)
  (hcoarser : 0 < j → ∀ m : ℕ, ¬ x.IsNearest (m * 10 ^ (x.magnitude - 1 - j + 1)))
include hx h hcoarser

/-- On the first grid that has one, the decimal has no zeros to strip, unless it is ten of the
leading digit's units. -/
theorem strip_spec :
    (d.strip 400).value = d.value ∧ (d.strip 400).size ≤ j + 1 ∧ 0 < (d.strip 400).digits := by
  obtain ⟨hexponent, hrounds, -, -⟩ := onGrid?_eq_some hx h
  obtain ⟨hlow, hhigh⟩ := digits_mem hx h
  have hpos : 0 < 10 ^ j := by positivity
  by_cases hzero : d.digits % 10 = 0
  · -- a zero puts it on the next coarser grid
    have hj : j = 0 := by
      by_contra hj
      refine hcoarser (Nat.pos_of_ne_zero hj) (d.digits / 10) ?_
      have hdigits : (d.digits : ℚ) = (d.digits / 10 : ℕ) * 10 := by
        exact_mod_cast (Nat.div_mul_cancel (Nat.dvd_of_mod_eq_zero hzero)).symm
      rw [Scaled.value, hexponent, hdigits, mul_assoc, ← zpow_one_add₀ (by norm_num),
        add_comm 1] at hrounds
      exact hrounds
    subst hj
    have hten : d = ⟨10, d.exponent⟩ := by
      obtain ⟨digits, exponent⟩ := d
      simp only [Scaled.mk.injEq, and_true] at *
      omega
    rw [hten, strip_ten, Scaled.size_le_iff Nat.one_pos]
    refine ⟨?_, by norm_num, Nat.one_pos⟩
    rw [Scaled.value, Scaled.value, zpow_add_one₀ (by norm_num)]
    push_cast
    ring
  · rw [strip_eq 400 hzero, Scaled.size_le_iff (Nat.succ_pos j)]
    refine ⟨rfl, lt_of_le_of_ne hhigh ?_, by omega⟩
    rintro heq
    rw [heq, pow_succ, Nat.mul_mod_left] at hzero
    exact hzero rfl

/-- Once its zeros are stripped, it is the shortest. -/
theorem isShortest_strip : (d.strip 400).IsShortest x := by
  have hrounds := (onGrid?_eq_some hx h).2.1
  obtain ⟨hvalue, hsize, hdigits⟩ := strip_spec hx h hcoarser
  have hfewest {c : Scaled} (hc : x.IsNearest c.value) : j < c.size := by
    rcases Nat.eq_zero_or_pos j with rfl | hj
    · exact c.size_pos
    · have := lt_size hx hc (hcoarser hj)
      omega
  refine ⟨hvalue ▸ hrounds, fun c hc => by have := hfewest hc; omega, ?_, by omega⟩
  intro c hc hcsize hne
  rw [hvalue] at hne
  unfold Scaled.IsNearer
  rw [hvalue]
  exact isNearer_of_onGrid? hx (by omega) h hc (by omega) hne

end First

/-- The decimal that is taken for a double is the shortest. -/
theorem isShortest_shortest (hx : x.IsFull) : (shortest .up x).IsShortest x := by
  have hmantissa : x.mantissa ≠ 0 := by
    have := hx.low
    omega
  unfold shortest
  rw [if_neg hmantissa]
  simp only [List.findSome?_map]
  rcases hfound : (List.range 17).findSome? _ with - | d
  · have hlast := List.findSome?_eq_none_iff.mp hfound 16 (by decide)
    have hsome := isSome_onGrid? hx
    rw [show x.magnitude - 17 = x.magnitude - 1 - (16 : ℕ) by push_cast; ring] at hsome
    rw [Function.comp_apply] at hlast
    rw [hlast] at hsome
    cases hsome
  · obtain ⟨front, j, rest, hsplit, hj, hfront⟩ := List.findSome?_eq_some_iff.mp hfound
    refine isShortest_strip hx hj fun hpos m => ?_
    -- the grid before was tried
    have hmem : j - 1 ∈ front := by
      have hsorted : (front ++ j :: rest).Pairwise (· < ·) := hsplit ▸ List.pairwise_lt_range
      have hj : j ∈ List.range 17 := by simp [hsplit]
      have hin : j - 1 ∈ front ++ j :: rest := by
        rw [← hsplit, List.mem_range]
        exact (Nat.sub_le j 1).trans_lt (List.mem_range.mp hj)
      rcases List.mem_append.mp hin with hin | hin
      · exact hin
      · rcases List.mem_cons.mp hin with hin | hin
        · omega
        · have := (List.pairwise_cons.mp (List.pairwise_append.mp hsorted).2.1).1 _ hin
          omega
    have hnone := onGrid?_eq_none hx (hfront _ hmem) m
    simp only at hnone
    rwa [show x.magnitude - 1 - ((j - 1 : ℕ) : ℤ) = x.magnitude - 1 - j + 1 by omega] at hnone

end Binary

/-! ### Integers -/

section Integers

variable {n : ℕ} {d : Scaled}

/-- A whole number that rounds to an integer of at most 53 bits is that integer. -/
theorem eq_of_isNearest {x : Binary} (hn : n < 2 ^ 53) (hx : x.value = n) {m : ℕ}
    (h : x.IsNearest m) : m = n := by
  rcases Nat.lt_or_ge m (2 ^ 53) with hm | hm
  · have hnear := h.nearest m ⟨m, 0, hm, by simp⟩
    rw [hx, sub_self, abs_zero] at hnear
    have heq : (m : ℚ) = n := sub_eq_zero.mp (abs_nonpos_iff.mp hnear)
    exact_mod_cast heq
  · -- the first number of 54 bits is nearer
    have hnear := h.nearest ((2 ^ 53 : ℕ) * 2 ^ (0 : ℤ)) (Binary.isDouble_of_le 0 le_rfl)
    have hm' : ((2 ^ 53 : ℕ) : ℚ) ≤ m := by exact_mod_cast hm
    have hn' : (n : ℚ) < (2 ^ 53 : ℕ) := by exact_mod_cast hn
    rw [hx, zpow_zero, mul_one, abs_of_pos (by linarith), abs_of_nonneg (by linarith)] at hnear
    linarith

/-- The shortest decimal of an integer of at most 53 bits has no places. -/
theorem exponent_nonneg (hpos : 0 < n) (hn : n < 2 ^ 53) (h : d.IsShortest (.ofNat n)) :
    0 ≤ d.exponent := by
  have hx := Binary.isFull_ofNat hpos (hn.trans (by norm_num))
  have hvalue := value_ofNat_of_lt hn
  have hself := nearest_ofNat n
  by_contra hneg
  -- otherwise it is below the power of ten of the integer's leading digit
  have hsize := h.fewest ⟨n, 0⟩ (by simpa [Scaled.value] using hself)
  have hlow := Scaled.le_digits (d := ⟨n, 0⟩) hpos
  generalize (⟨n, 0⟩ : Scaled).size = s at hsize hlow
  have hs := d.size_pos
  have hlt : d.value < 10 ^ ((s - 1 : ℕ) : ℤ) := Scaled.value_lt d.digits_lt (by omega)
  have hleading : (⟨1, (s - 1 : ℕ)⟩ : Scaled).value = (10 ^ (s - 1) : ℕ) := by
    rw [Scaled.value, Nat.cast_one, one_mul, zpow_natCast, Nat.cast_pow, Nat.cast_ofNat]
  rw [zpow_natCast] at hlt
  have hlow' : (10 : ℚ) ^ (s - 1) ≤ n := by exact_mod_cast hlow
  have hback : (Binary.ofNat n).IsNearest (⟨1, (s - 1 : ℕ)⟩ : Scaled).value := by
    have hrounds := h.rounds
    rw [← hx.accepts_iff_isNearest] at hrounds hself ⊢
    rw [hleading]
    push_cast
    exact hrounds.convex hself hlt.le hlow'
  -- so that is the integer, and as short as it can be
  have hten : 10 ^ (s - 1) = n := eq_of_isNearest hn hvalue (hleading ▸ hback)
  have hone : (⟨1, (s - 1 : ℕ)⟩ : Scaled).size = d.size := by
    have hle := h.fewest _ hback
    have : (⟨1, (s - 1 : ℕ)⟩ : Scaled).size ≤ 1 :=
      (Scaled.size_le_iff Nat.one_pos).mpr (by norm_num)
    omega
  have hne : (⟨1, (s - 1 : ℕ)⟩ : Scaled).value ≠ d.value := by
    rw [hleading]
    push_cast
    exact hlt.ne'
  rcases h.nearer _ hback hone hne with hnearer | ⟨hnearer, -⟩
  · rw [hleading, hten, hvalue, sub_self, abs_zero] at hnearer
    exact absurd hnearer (not_lt.mpr (abs_nonneg _))
  · rw [hleading, hten, hvalue, sub_self, abs_zero, abs_eq_zero] at hnearer
    linarith

/-- The shortest decimal of an integer of at most 53 bits is the integer. -/
theorem value_of_isShortest (hpos : 0 < n) (hn : n < 2 ^ 53) (h : d.IsShortest (.ofNat n)) :
    d.value = n := by
  obtain ⟨m, hm⟩ := Scaled.exists_value_eq (exponent_nonneg hpos hn h)
  rw [zpow_zero, mul_one] at hm
  have hrounds := h.rounds
  rw [hm] at hrounds
  rw [hm, eq_of_isNearest hn (value_ofNat_of_lt hn) hrounds]

/-- A power of ten behind a number is so many zeros. -/
theorem decimal_mul_pow {m : ℕ} (hm : 0 < m) (k : ℕ) :
    decimal (m * 10 ^ k) = decimal m ++ List.replicate k '0' := by
  rw [decimal_eq, decimal_eq]
  unfold bigDigits
  rw [if_neg hm.ne', if_neg (by positivity), mul_comm, Nat.digits_base_pow_mul (by decide) hm]
  simp [digitChar]

/-- A decimal without places is written like its value, unless that is zero. -/
theorem plain_eq (hd : 0 ≤ d.exponent) (h : d.value = n) (hn : 0 < n) : d.plain = decimal n := by
  obtain ⟨k, hk⟩ := Int.eq_ofNat_of_zero_le hd
  have hvalue : d.digits * 10 ^ k = n := by
    rw [Scaled.value, hk, zpow_natCast] at h
    exact_mod_cast h
  have hdigits : 0 < d.digits := by
    by_contra hzero
    rw [Nat.eq_zero_of_not_pos hzero] at hvalue
    omega
  unfold Scaled.plain
  rw [if_pos hd, ← hvalue, decimal_mul_pow hdigits, hk]
  rfl

end Integers

/-! ### Written integers -/

/-- A text shows the double that is nearest to an integer: its shortest decimal, in full and with
the sign of the integer. -/
def ShowsNearest (i : ℤ) (text : List Char) : Prop :=
  ∃ (x : Binary) (d : Scaled), x.IsNearest i.natAbs ∧ d.IsShortest x ∧
    text = if i < 0 then '-' :: d.plain else d.plain

/-- There is one text that shows the double of an integer. -/
theorem ShowsNearest.unique {i : ℤ} {s t : List Char} (hs : ShowsNearest i s)
    (ht : ShowsNearest i t) : s = t := by
  obtain ⟨x, d, hx, hd, rfl⟩ := hs
  obtain ⟨y, c, hy, hc, rfl⟩ := ht
  rw [(hd.congr hy.normal (hx.unique hy)).unique hc]

/-- The decimal of the double of an integer of 64 bits is the shortest. -/
theorem isShortest_ofNat {n : ℕ} (h : n < 2 ^ 64) :
    (shortest .up (Binary.ofNat n)).IsShortest (.ofNat n) := by
  rcases Nat.eq_zero_or_pos n with rfl | hpos
  · have hx : (Binary.ofNat 0).value = 0 := by simp [Binary.ofNat, Binary.value]
    have hd : shortest .up (Binary.ofNat 0) = ⟨0, 0⟩ := rfl
    have hvalue : (⟨0, 0⟩ : Scaled).value = 0 := by simp [Scaled.value]
    have hsize : (⟨0, 0⟩ : Scaled).size ≤ 1 := (Scaled.size_le_iff Nat.one_pos).mpr (by norm_num)
    rw [hd]
    refine ⟨?_, fun c _ => hsize.trans c.size_pos, ?_, fun _ => rfl⟩
    · rw [hvalue]
      exact nearest_ofNat 0
    · intro c _ _ hne
      rw [hvalue] at hne
      left
      rw [hx, hvalue, sub_self, abs_zero]
      exact abs_pos.mpr (by simpa using hne)
  · exact Binary.isShortest_shortest (Binary.isFull_ofNat hpos h)

/-- An integer of 64 bits is written as the double that is nearest to it. -/
theorem plainNearest_shows {i : ℤ} (h : i.natAbs < 2 ^ 64) : ShowsNearest i (plainNearest i) :=
  ⟨Binary.ofNat i.natAbs, shortest .up (Binary.ofNat i.natAbs), nearest_ofNat i.natAbs,
    isShortest_ofNat h, rfl⟩

/-- An integer of at most 53 bits is written with its own digits. -/
theorem plainNearest_of_lt {i : ℤ} (h : i.natAbs < 2 ^ 53) : plainNearest i = signedDecimal i := by
  have hplain : (shortest .up (Binary.ofNat i.natAbs)).plain = decimal i.natAbs := by
    rcases Nat.eq_zero_or_pos i.natAbs with hzero | hpos
    · rw [hzero]
      decide +kernel
    · have hshortest := isShortest_ofNat (h.trans (by norm_num : 2 ^ 53 < 2 ^ 64))
      exact plain_eq (exponent_nonneg hpos h hshortest) (value_of_isShortest hpos h hshortest) hpos
  unfold plainNearest
  rw [hplain]
  cases i with
  | ofNat n => simp [signedDecimal]
  | negSucc n => simp [signedDecimal, Int.negSucc_lt_zero]

end CacheWarden.Decimal
