import CacheWarden.Text.Numeral
import Mathlib
/-!
Numerals as digits.

A number is written as its digits in the base, most significant first
(`digitsOnto_eq`), and reading digits from the left gives it back
(`place_bigDigits`).  Every reader goes through the numbers of the leading digits,
which only grow (`le_place`), so a bound on the number bounds them all.
-/

namespace CacheWarden.Text

/-! ### Digits -/

/-- What digits amount to behind a number that was read in front of them. -/
def place (base : Nat) (n : Nat) (ds : List Nat) : Nat :=
  ds.foldl (fun n d => n * base + d) n

@[simp] theorem place_nil (base n : Nat) : place base n [] = n := rfl

@[simp] theorem place_cons (base n d : Nat) (ds : List Nat) :
    place base n (d :: ds) = place base (n * base + d) ds := rfl

/-- More digits never make less. -/
theorem le_place {base : Nat} (hbase : 0 < base) (n : Nat) (ds : List Nat) :
    n ≤ place base n ds := by
  induction ds generalizing n with
  | nil => exact Nat.le_refl n
  | cons d ds ih =>
    calc n ≤ n * base := Nat.le_mul_of_pos_right n hbase
      _ ≤ n * base + d := Nat.le_add_right _ d
      _ ≤ place base n (d :: ds) := ih _

/-- The digits of a number, most significant first; zero has one. -/
def bigDigits (base n : Nat) : List Nat :=
  if n = 0 then [0] else (Nat.digits base n).reverse

theorem bigDigits_of_lt {base n : Nat} (h : n < base) : bigDigits base n = [n] := by
  unfold bigDigits
  split
  · rename_i hn
    rw [hn]
  · rename_i hn
    rw [Nat.digits_of_lt base n hn h]
    rfl

theorem bigDigits_of_le {base n : Nat} (hbase : 2 ≤ base) (h : base ≤ n) :
    bigDigits base n = bigDigits base (n / base) ++ [n % base] := by
  have hn : 0 < n := by omega
  have hquot : n / base ≠ 0 := (Nat.div_pos h (by omega)).ne'
  unfold bigDigits
  rw [if_neg (by omega), if_neg hquot, Nat.digits_def' (by omega) hn, List.reverse_cons]

theorem bigDigits_ne_nil (base n : Nat) : bigDigits base n ≠ [] := by
  unfold bigDigits
  split
  · simp
  · rename_i hn
    simpa [Nat.digits_ne_nil_iff_ne_zero] using hn

theorem lt_of_mem_bigDigits {base n d : Nat} (hbase : 2 ≤ base) (h : d ∈ bigDigits base n) :
    d < base := by
  unfold bigDigits at h
  split at h
  · simp only [List.mem_singleton] at h
    omega
  · exact Nat.digits_lt_base hbase (List.mem_reverse.mp h)

/-- Only zero starts with a zero. -/
theorem eq_zero_of_head?_bigDigits {base n : Nat} (h : (bigDigits base n).head? = some 0) :
    n = 0 := by
  by_contra hn
  unfold bigDigits at h
  rw [if_neg hn, List.head?_reverse, List.getLast?_eq_some_getLast
    (Nat.digits_ne_nil_iff_ne_zero.mpr hn)] at h
  exact Nat.getLast_digit_ne_zero base hn (Option.some.inj h)

/-- Reading the digits of a number gives it back. -/
theorem place_bigDigits {base : Nat} (n : Nat) : place base 0 (bigDigits base n) = n := by
  unfold bigDigits
  split
  · rename_i hn
    simp [hn]
  · unfold place
    rw [List.foldl_reverse]
    calc List.foldr (fun d n => n * base + d) 0 (Nat.digits base n)
        = Nat.ofDigits base (Nat.digits base n) := by
          rw [Nat.ofDigits_eq_foldr]
          congr 1
          funext d n
          simp [Nat.mul_comm, Nat.add_comm]
      _ = n := Nat.ofDigits_digits base n

theorem length_bigDigits_le {base n k : Nat} (hbase : 2 ≤ base) (hk : 0 < k)
    (h : n < base ^ k) : (bigDigits base n).length ≤ k := by
  unfold bigDigits
  split
  · exact hk
  · rw [List.length_reverse]
    exact (Nat.digits_length_le_iff hbase n).mpr h

/-! ### Written digits -/

theorem digitsOnto_eq {base : Nat} (hbase : 2 ≤ base) {fuel n : Nat} (h : n < fuel)
    (tail : List Char) :
    digitsOnto base fuel n tail = (bigDigits base n).map digitChar ++ tail := by
  induction fuel generalizing n tail with
  | zero => exact absurd h (Nat.not_lt_zero n)
  | succ fuel ih =>
    unfold digitsOnto
    split
    · rename_i hn
      rw [bigDigits_of_lt hn]
      rfl
    · rename_i hn
      have hle : base ≤ n := Nat.le_of_not_lt hn
      have hquot : n / base < n := Nat.div_lt_self (by omega) hbase
      rw [ih (by omega), bigDigits_of_le hbase hle]
      simp

/-- A number in decimal is its digits. -/
theorem decimal_eq (n : Nat) : decimal n = (bigDigits 10 n).map digitChar := by
  show digitsOnto 10 (n + 1) n [] = _
  rw [digitsOnto_eq (by decide) (Nat.lt_succ_self n), List.append_nil]

/-- A number in hexadecimal is its digits. -/
theorem hex_eq (n : Nat) : hex n = (bigDigits 16 n).map digitChar := by
  show digitsOnto 16 (n + 1) n [] = _
  rw [digitsOnto_eq (by decide) (Nat.lt_succ_self n), List.append_nil]

/-- The digits of the bases up to sixteen, read back. -/
theorem digitValue?_digitChar {base d : Nat} (hbase : base ≤ 16) (h : d < base) :
    digitValue? base (digitChar d) = some d := by
  have hd : d < 16 := by omega
  interval_cases d <;> simp [digitValue?, digitChar] <;> omega

/-- A decimal digit is its value above the zero. -/
theorem toNat_digitChar {d : Nat} (h : d < 10) : (digitChar d).toNat = 48 + d := by
  interval_cases d <;> rfl

end CacheWarden.Text
