import HftArb.Lib.Rounding
import Mathlib.Algebra.Order.Floor.Semifield

/-!
# Doubles

The nonnegative doubles of the program are rationals, and each of its operations on them is rounded to
53 binary digits.  None leaves the range of the exponents.

Both percentile functions multiply a constant close to a fraction by a number of samples.  `StandsFor`
says how close is close enough for the rank that comes out to be the exact one.
-/

namespace Hft

open Rounding

/-- The double nearest to `x`. -/
def toDouble (x : ℚ) : ℚ := toNearest 53 x

/-- `std::llround`: halves are rounded away from zero. -/
def llround (x : ℚ) : ℤ := if 0 ≤ x then ⌊x + 1 / 2⌋ else ⌈x - 1 / 2⌉

theorem toDouble_natCast {m : ℕ} (h : m < 2 ^ 53) : toDouble m = m := toNearest_natCast h

/-- What a number between 1/2 and 1 is rounded to. -/
theorem toDouble_eq {x : ℚ} {n : ℤ} (hle : 1 / 2 ≤ x) (hlt : x < 1)
    (hn : |x - n / 2 ^ 53| < 1 / 2 ^ 54) : toDouble x = n / 2 ^ 53 := by
  have hplace : (2 : ℚ) ^ (-1 + 1 - ((53 : ℕ) : ℤ)) = 1 / 2 ^ 53 := by norm_num
  have h := toNearest_eq (p := 53) (x := x) (e := -1) (n := n) (by norm_num at hle ⊢; exact hle)
    (by norm_num at hlt ⊢; exact hlt) (by rw [hplace, mul_one_div]; norm_num at hn ⊢; exact hn)
  rw [toDouble, h, hplace, mul_one_div]

/-- The double `r` may stand for `a / b` as a factor. -/
structure StandsFor (r : ℚ) (a b : ℕ) : Prop where
  pos : 0 < r
  le_one : r ≤ 1
  low : 2 * (a / b - r) ≤ r / 2 ^ 53
  high : r - a / b ≤ 1 / 2 ^ 53

namespace StandsFor

variable {r : ℚ} {a b m : ℕ}

theorem floor_add (h : StandsFor r a b) (hb : 0 < b) (hsmall : b ≤ 1000) (hm : m ≤ 2 ^ 41) {c : ℚ}
    (hc : c = 0 ∨ c = 1 / 2) : ⌊toDouble (r * toDouble m) + c⌋ = ⌊(a : ℚ) * m / b + c⌋ := by
  rw [toDouble_natCast (by omega), toDouble]
  have hbound : 4 * b * m < 2 ^ 53 :=
    calc 4 * b * m ≤ 4 * 1000 * 2 ^ 41 := by gcongr
      _ < 2 ^ 53 := by norm_num
  exact floor_toNearest_mul hb h.pos h.le_one hc h.low h.high hbound

/-- **A truncated rank is exact.** -/
theorem toNat_floor (h : StandsFor r a b) (hb : 0 < b) (hsmall : b ≤ 1000) (hm : m ≤ 2 ^ 41) :
    ⌊toDouble (r * toDouble m)⌋.toNat = a * m / b := by
  have hfloor := h.floor_add hb hsmall hm (Or.inl rfl)
  rw [add_zero, add_zero] at hfloor
  rw [hfloor, Int.floor_toNat]
  have hdiv := Nat.floor_div_eq_div (K := ℚ) (a * m) b
  push_cast at hdiv
  exact hdiv

/-- **A rounded rank is exact.** -/
theorem toNat_llround (h : StandsFor r a b) (hb : 0 < b) (hsmall : b ≤ 1000) (hm : m ≤ 2 ^ 41) :
    (llround (toDouble (r * toDouble m))).toNat = (2 * a * m + b) / (2 * b) := by
  have hfloor := h.floor_add hb hsmall hm (Or.inr rfl)
  have hnonneg : 0 ≤ toDouble (r * toDouble m) := by
    rcases m.eq_zero_or_pos with rfl | hm0
    · simp [toDouble, toNearest_zero]
    · have hx : 0 < r * toDouble m := by
        rw [toDouble_natCast (by omega)]
        exact mul_pos h.pos (Nat.cast_pos.2 hm0)
      have hrel := (abs_le.1 (abs_toNearest_sub_le_mul (p := 53) hx)).1
      have hle : r * toDouble m / 2 ^ 53 ≤ r * toDouble m := div_le_self hx.le (by norm_num)
      rw [toDouble]
      linarith
  rw [llround, if_pos hnonneg, hfloor, Int.floor_toNat]
  have hdiv := Nat.floor_div_eq_div (K := ℚ) (2 * a * m + b) (2 * b)
  have hbQ : (b : ℚ) ≠ 0 := Nat.cast_ne_zero.2 hb.ne'
  rw [← hdiv]
  congr 1
  push_cast
  field_simp

end StandsFor

/-- An average is within 2^-51 of its exact value, relatively. -/
theorem abs_toDouble_div_sub_le {s n : ℕ} (hs : 0 < s) (hn : 0 < n) (hsmall : n < 2 ^ 53) :
    |toDouble (toDouble s / toDouble n) - s / n| ≤ s / n / 2 ^ 51 := by
  have hsQ : (0 : ℚ) < s := Nat.cast_pos.2 hs
  have hnQ : (0 : ℚ) < n := Nat.cast_pos.2 hn
  rw [toDouble_natCast hsmall]
  obtain ⟨hlow, hhigh⟩ := abs_le.1 (abs_toNearest_sub_le_mul (p := 53) hsQ)
  have hpos : 0 < toDouble s := by
    rw [toDouble]
    have := div_lt_self hsQ (show (1 : ℚ) < 2 ^ 53 by norm_num)
    linarith
  obtain ⟨hlow', hhigh'⟩ := abs_le.1 (abs_toNearest_sub_le_mul (p := 53) (div_pos hpos hnQ))
  rw [toDouble] at hpos hlow' hhigh' ⊢
  -- both errors in parts of the exact quotient
  have hdivlow : (s : ℚ) / n - s / n / 2 ^ 53 ≤ toNearest 53 (s : ℚ) / n := by
    rw [show (s : ℚ) / n - s / n / 2 ^ 53 = (s - s / 2 ^ 53) / n by ring]
    gcongr
    linarith
  have hdivhigh : toNearest 53 (s : ℚ) / n ≤ s / n + s / n / 2 ^ 53 := by
    rw [show (s : ℚ) / n + s / n / 2 ^ 53 = (s + s / 2 ^ 53) / n by ring]
    gcongr
    linarith
  have hq : (0 : ℚ) < s / n := div_pos hsQ hnQ
  rw [toDouble, abs_le]
  constructor <;> linarith

/-! ### The constants of the percentiles -/

theorem standsFor_half : StandsFor (toDouble (1 / 2)) 1 2 := by
  rw [toDouble_eq (n := 2 ^ 52) (by norm_num) (by norm_num) (by norm_num)]
  constructor <;> norm_num

theorem standsFor_99 : StandsFor (toDouble (99 / 100)) 99 100 := by
  rw [toDouble_eq (n := 8917127262193582) (by norm_num) (by norm_num) (by norm_num [abs_lt])]
  constructor <;> norm_num

theorem standsFor_999 : StandsFor (toDouble (999 / 1000)) 999 1000 := by
  rw [toDouble_eq (n := 8998192055486251) (by norm_num) (by norm_num) (by norm_num [abs_lt])]
  constructor <;> norm_num

end Hft
