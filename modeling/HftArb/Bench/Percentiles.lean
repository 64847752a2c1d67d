import HftArb.Common.Doubles
import HftArb.Lib.OrderStatistics
import Mathlib.Data.List.GetD

/-!
# The percentiles of the benchmark

`percentile` divides by 100, multiplies and rounds in doubles, then asks `nth_element` for the entry
that sorting would put there.  `isRank_percentile` says which rank that is; for the three percentiles
of the benchmark it is the exact one, rounded up at a half.
-/

namespace Hft.Bench

/-- `percentile`.  What `nth_element` leaves at an index is the entry of the sorted values. -/
def percentile (values : List ℕ) (p : ℚ) : ℕ :=
  if values = [] then 0
  else
    let rank := toDouble (toDouble (p / toDouble 100) * toDouble (values.length - 1 : ℕ))
    values.mergeSort.getD (llround rank).toNat 0

/-- The double quotient of two sums, or 0. -/
def average (sum count : ℕ) : ℚ := if 0 < count then toDouble (toDouble sum / toDouble count) else 0

theorem abs_average_sub_le {s n : ℕ} (hn : 0 < n) (hsmall : n < 2 ^ 53) :
    |average s n - s / n| ≤ s / n / 2 ^ 51 := by
  rw [average, if_pos hn]
  rcases s.eq_zero_or_pos with rfl | hs
  · simp [toDouble, Rounding.toNearest_zero]
  · exact abs_toDouble_div_sub_le hs hn hsmall

theorem isRank_percentile {values : List ℕ} {p : ℚ} {a b : ℕ}
    (h : StandsFor (toDouble (p / toDouble 100)) a b) (hb : 0 < b) (hsmall : b ≤ 1000) (hab : a ≤ b)
    (hne : values ≠ []) (hlen : values.length ≤ 2 ^ 41) :
    IsRank values ((2 * a * (values.length - 1) + b) / (2 * b)) (percentile values p) := by
  have hpos := List.length_pos_iff.2 hne
  have hidx : (2 * a * (values.length - 1) + b) / (2 * b) < values.length := by
    rw [Nat.div_lt_iff_lt_mul (by omega)]
    have hmul : 2 * a * (values.length - 1) ≤ 2 * b * (values.length - 1) :=
      Nat.mul_le_mul_right _ (by omega)
    have hlast : 2 * b * (values.length - 1) + 2 * b = values.length * (2 * b) := by
      obtain ⟨m, hm⟩ := Nat.exists_eq_add_of_le' hpos
      rw [hm, Nat.add_sub_cancel]
      ring
    omega
  have hidx' : (2 * a * (values.length - 1) + b) / (2 * b) < values.mergeSort.length := by
    rwa [List.length_mergeSort]
  have hpercentile : percentile values p =
      values.mergeSort[(2 * a * (values.length - 1) + b) / (2 * b)] := by
    simp only [percentile, if_neg hne]
    rw [h.toNat_llround hb hsmall (by omega), List.getD_eq_getElem]
  rw [hpercentile]
  exact IsRank.getElem (List.mergeSort_perm _ _) List.sortedLE_mergeSort _

/-! ### The percentiles that are asked for -/

theorem toDouble_hundred : toDouble 100 = 100 := toDouble_natCast (m := 100) (by norm_num)

theorem standsFor_p50 : StandsFor (toDouble (toDouble 50 / toDouble 100)) 1 2 := by
  have h50 : toDouble 50 = 50 := toDouble_natCast (m := 50) (by norm_num)
  rw [h50, toDouble_hundred, show (50 : ℚ) / 100 = 1 / 2 by norm_num]
  exact standsFor_half

theorem standsFor_p99 : StandsFor (toDouble (toDouble 99 / toDouble 100)) 99 100 := by
  have h99 : toDouble 99 = 99 := toDouble_natCast (m := 99) (by norm_num)
  rw [h99, toDouble_hundred]
  exact standsFor_99

/-- The quotient is rounded twice and ends above 999/1000, where the recorder's constant is below. -/
theorem standsFor_p999 : StandsFor (toDouble (toDouble (999 / 10) / toDouble 100)) 999 1000 := by
  have h999 : toDouble (999 / 10) = 7029837543348634 / 2 ^ 46 := by
    have hplace : (2 : ℚ) ^ ((6 : ℤ) + 1 - ((53 : ℕ) : ℤ)) = 1 / 2 ^ 46 := by norm_num
    have h := Rounding.toNearest_eq (p := 53) (x := (999 / 10 : ℚ)) (e := 6)
      (n := 7029837543348634) (by norm_num) (by norm_num)
      (by rw [hplace]; norm_num [abs_lt])
    rw [toDouble, h, hplace]
    norm_num
  rw [h999, toDouble_hundred,
    toDouble_eq (n := 8998192055486252) (by norm_num) (by norm_num) (by norm_num [abs_lt])]
  constructor <;> norm_num

end Hft.Bench
