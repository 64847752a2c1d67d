import Mathlib.Data.Int.Log
import Mathlib.Tactic

/-!
# Rounding to a number of binary digits

`toNearest p x` is the number with `p` binary digits that is nearest to `x`, the one with an even last
digit of two.  For `p = 53` it is what a correctly rounded operation on doubles returns for the exact
result `x`, inside the range of their exponents.

The library is about quantities that are rounded several times and truncated in the end: a factor
close to a fraction `a / b`, multiplied by an integer and rounded again, has the integer part of the
exact product as long as the integer is small (`floor_toNearest_mul`).
-/

namespace Rounding

variable {K : Type*} [Field K] [LinearOrder K] [IsStrictOrderedRing K] [FloorRing K]

/-- The integer nearest to `x`, the even one of two. -/
def nearestInt (x : K) : ℤ :=
  if 2 * Int.fract x < 1 then ⌊x⌋
  else if 1 < 2 * Int.fract x then ⌊x⌋ + 1
  else if Even ⌊x⌋ then ⌊x⌋ else ⌊x⌋ + 1

/-- What the last of `p` binary digits of `x` is worth. -/
def lastPlace (p : ℕ) (x : K) : K := 2 ^ (Int.log 2 |x| + 1 - (p : ℤ))

/-- `x` rounded to `p` binary digits. -/
def toNearest (p : ℕ) (x : K) : K := nearestInt (x / lastPlace p x) * lastPlace p x

variable {p : ℕ} {x : K}

/-! ### The nearest integer -/

theorem abs_nearestInt_sub_le (x : K) : |(nearestInt x : K) - x| ≤ 1 / 2 := by
  have hsplit := Int.floor_add_fract x
  have hnonneg := Int.fract_nonneg x
  have hlt := Int.fract_lt_one x
  rw [abs_le]
  unfold nearestInt
  split_ifs with hlow hhigh heven
  · constructor <;> linarith
  · push_cast
    constructor <;> linarith
  · constructor <;> linarith
  · push_cast
    constructor <;> linarith

/-- Rounding does not pass an integer. -/
theorem le_nearestInt {n : ℤ} (h : (n : K) < x + 1 / 2) : n ≤ nearestInt x := by
  have hnear := (abs_le.1 (abs_nearestInt_sub_le x)).1
  have hlt : ((n - 1 : ℤ) : K) < nearestInt x := by
    push_cast
    linarith
  have := Int.cast_lt.1 hlt
  omega

theorem nearestInt_intCast (n : ℤ) : nearestInt (n : K) = n := by
  refine le_antisymm ?_ (le_nearestInt (by linarith))
  have hnear := (abs_le.1 (abs_nearestInt_sub_le (n : K))).2
  have hlt : (nearestInt (n : K) : K) < ((n + 1 : ℤ) : K) := by
    push_cast
    linarith
  have := Int.cast_lt.1 hlt
  omega

/-! ### The last place -/

theorem lastPlace_pos (p : ℕ) (x : K) : 0 < lastPlace p x := zpow_pos two_pos _

omit [IsStrictOrderedRing K] in
theorem lastPlace_eq (p : ℕ) (x : K) : lastPlace p x = 2 ^ Int.log 2 |x| * 2 / 2 ^ p := by
  rw [lastPlace, zpow_sub₀ two_ne_zero, zpow_add₀ two_ne_zero, zpow_one, zpow_natCast]

theorem zpow_log_le (hx : 0 < x) : (2 : K) ^ Int.log 2 |x| ≤ x := by
  rw [abs_of_pos hx]
  exact_mod_cast Int.zpow_log_le_self one_lt_two hx

theorem lastPlace_le (hx : 0 < x) : lastPlace p x ≤ x * 2 / 2 ^ p := by
  rw [lastPlace_eq]
  gcongr
  exact zpow_log_le hx

theorem lt_lastPlace (hx : 0 < x) : x / 2 ^ p < lastPlace p x := by
  have hlog : x < (2 : K) ^ Int.log 2 |x| * 2 := by
    rw [abs_of_pos hx, ← zpow_add_one₀ two_ne_zero]
    exact_mod_cast Int.lt_zpow_succ_log_self one_lt_two x
  rw [lastPlace_eq]
  gcongr

/-- A number that leaves `j` of its digits behind the point is rounded to multiples of `2 ^ -j`. -/
theorem exists_mul_lastPlace {j : ℕ} (hpos : 0 < x) (hx : x * 2 ^ j < 2 ^ p) :
    ∃ n : ℕ, (n : K) * lastPlace p x = 1 / 2 ^ j := by
  have hlog : Int.log 2 |x| + 1 - (p : ℤ) ≤ -(j : ℤ) := by
    have hlt : (2 : K) ^ (Int.log 2 |x| + j) < 2 ^ (p : ℤ) := by
      rw [zpow_add₀ two_ne_zero, zpow_natCast, zpow_natCast]
      exact (mul_le_mul_of_nonneg_right (zpow_log_le hpos) (by positivity)).trans_lt hx
    have := (zpow_lt_zpow_iff_right₀ (one_lt_two (α := K))).1 hlt
    omega
  obtain ⟨k, hk⟩ := Int.le.dest hlog
  refine ⟨2 ^ k, ?_⟩
  rw [lastPlace, Nat.cast_pow, Nat.cast_ofNat, ← zpow_natCast, ← zpow_add₀ two_ne_zero, add_comm, hk,
    zpow_neg, zpow_natCast, one_div]

/-! ### Rounding -/

theorem toNearest_zero (p : ℕ) : toNearest p (0 : K) = 0 := by
  have h := nearestInt_intCast (K := K) 0
  rw [Int.cast_zero] at h
  rw [toNearest, zero_div, h, Int.cast_zero, zero_mul]

theorem abs_toNearest_sub_le (p : ℕ) (x : K) : |toNearest p x - x| ≤ lastPlace p x / 2 := by
  have hpos := lastPlace_pos p x
  have hsub : toNearest p x - x =
      ((nearestInt (x / lastPlace p x) : K) - x / lastPlace p x) * lastPlace p x := by
    rw [toNearest, sub_mul, div_mul_cancel₀ _ hpos.ne']
  rw [hsub, abs_mul, abs_of_pos hpos]
  have := mul_le_mul_of_nonneg_right (abs_nearestInt_sub_le (x / lastPlace p x)) hpos.le
  linarith

/-- The relative error of a rounding. -/
theorem abs_toNearest_sub_le_mul (hx : 0 < x) : |toNearest p x - x| ≤ x / 2 ^ p := by
  have h := abs_toNearest_sub_le p x
  have hle := lastPlace_le (p := p) hx
  have : x * 2 / 2 ^ p / 2 = x / 2 ^ p := by ring
  linarith

/-- Rounding does not pass a multiple of the last place. -/
theorem le_toNearest {n : ℤ} (h : n * lastPlace p x < x + lastPlace p x / 2) :
    n * lastPlace p x ≤ toNearest p x := by
  have hpos := lastPlace_pos p x
  have hlt : (n : K) < x / lastPlace p x + 1 / 2 := by
    rw [← mul_lt_mul_iff_left₀ hpos, add_mul, div_mul_cancel₀ _ hpos.ne']
    linarith
  have := Int.cast_le (R := K).2 (le_nearestInt hlt)
  exact mul_le_mul_of_nonneg_right this hpos.le

theorem toNearest_natCast {m : ℕ} (h : m < 2 ^ p) : toNearest p (m : K) = m := by
  rcases m.eq_zero_or_pos with rfl | hm
  · rw [Nat.cast_zero, toNearest_zero]
  · have hlt : (m : K) * 2 ^ 0 < 2 ^ p := by
      rw [pow_zero, mul_one]
      exact_mod_cast h
    obtain ⟨n, hn⟩ := exists_mul_lastPlace (Nat.cast_pos.2 hm) hlt
    have hpos := lastPlace_pos p (m : K)
    have hdiv : (m : K) / lastPlace p (m : K) = ((m * n : ℤ) : K) := by
      rw [div_eq_iff hpos.ne', Int.cast_mul, Int.cast_natCast, Int.cast_natCast, mul_assoc, hn,
        pow_zero, div_one, mul_one]
    rw [toNearest, hdiv, nearestInt_intCast, ← hdiv, div_mul_cancel₀ _ hpos.ne']

/-- What a number between two powers of two is rounded to. -/
theorem toNearest_eq {e n : ℤ} (hle : 2 ^ e ≤ x) (hlt : x < 2 ^ (e + 1))
    (hn : |x - n * 2 ^ (e + 1 - p)| < 2 ^ (e + 1 - p) / 2) :
    toNearest p x = n * 2 ^ (e + 1 - p) := by
  have hx : 0 < x := (zpow_pos two_pos e).trans_le hle
  have hlog : Int.log 2 |x| = e := by
    rw [abs_of_pos hx]
    refine le_antisymm ?_ ((Int.zpow_le_iff_le_log one_lt_two hx).1 (by exact_mod_cast hle))
    exact Int.lt_add_one_iff.1 ((Int.lt_zpow_iff_log_lt one_lt_two hx).1 (by exact_mod_cast hlt))
  have hplace : lastPlace p x = 2 ^ (e + 1 - p) := by rw [lastPlace, hlog]
  have hnear := abs_toNearest_sub_le p x
  have hpos := lastPlace_pos p x
  rw [toNearest] at hnear ⊢
  rw [hplace] at hnear hpos ⊢
  set k := nearestInt (x / 2 ^ (e + 1 - (p : ℤ)))
  -- two multiples of the last place, less than one apart
  have hclose : |(k : K) - n| * 2 ^ (e + 1 - (p : ℤ)) < 1 * 2 ^ (e + 1 - (p : ℤ)) := by
    rw [one_mul, ← abs_of_pos hpos, ← abs_mul, sub_mul, abs_of_pos hpos]
    have := abs_sub_le ((k : K) * 2 ^ (e + 1 - (p : ℤ))) x (n * 2 ^ (e + 1 - (p : ℤ)))
    linarith
  have hlt1 : |k - n| < 1 := by exact_mod_cast lt_of_mul_lt_mul_right hclose hpos.le
  rw [sub_eq_zero.1 (Int.abs_lt_one_iff.1 hlt1)]

/-! ### Products that are truncated -/

/-- A rounded number and an exact one have the same integer part, counted from `c`, if the rounded
one is above what the exact one has reached and below what it has not. -/
theorem floor_toNearest_add {c y : K} {n : ℤ} (hgrid : n * lastPlace p x = ⌊y + c⌋ - c)
    (hlow : 2 * (y - x) < lastPlace p x) (hhigh : x + lastPlace p x / 2 + c < ⌊y + c⌋ + 1) :
    ⌊toNearest p x + c⌋ = ⌊y + c⌋ := by
  have hreached : (⌊y + c⌋ : K) - c ≤ y := by
    have := Int.floor_le (y + c)
    linarith
  rw [Int.floor_eq_iff]
  constructor
  · have := le_toNearest (p := p) (x := x) (n := n) (by linarith)
    linarith
  · have := (abs_le.1 (abs_toNearest_sub_le p x)).2
    linarith

/-- **The integer part of a rounded product.**  The factor `r` stands for the fraction `a / b`. -/
theorem floor_toNearest_mul {a b m : ℕ} {r c : K} (hb : 0 < b) (hr : 0 < r) (hone : r ≤ 1)
    (hc : c = 0 ∨ c = 1 / 2) (hlow : 2 * (a / b - r) ≤ r / 2 ^ p) (hhigh : r - a / b ≤ 1 / 2 ^ p)
    (hm : 4 * b * m < 2 ^ p) : ⌊toNearest p (r * m) + c⌋ = ⌊(a : K) * m / b + c⌋ := by
  rcases m.eq_zero_or_pos with rfl | hm0
  · simp [toNearest_zero]
  have hbK : (0 : K) < b := Nat.cast_pos.2 hb
  have hmK : (0 : K) < m := Nat.cast_pos.2 hm0
  have hpK : (0 : K) < 2 ^ p := by positivity
  have hx : 0 < r * m := mul_pos hr hmK
  have hxm : r * m ≤ m := mul_le_of_le_one_left hmK.le hone
  have hmp : 4 * (b : K) * m < 2 ^ p := by exact_mod_cast hm
  -- halves are multiples of the last place
  obtain ⟨n, hn⟩ : ∃ n : ℤ, (n : K) * lastPlace p (r * m) = ⌊(a : K) * m / b + c⌋ - c := by
    have hroom : r * m * 2 ^ 1 < 2 ^ p := by
      have hb1 : (1 : K) ≤ b := Nat.one_le_cast.2 hb
      nlinarith
    obtain ⟨n, hn⟩ := exists_mul_lastPlace hx hroom
    rw [pow_one] at hn
    rcases hc with rfl | rfl
    · refine ⟨2 * ⌊(a : K) * m / b + 0⌋ * n, ?_⟩
      push_cast
      rw [mul_assoc, hn]
      ring
    · refine ⟨(2 * ⌊(a : K) * m / b + 1 / 2⌋ - 1) * n, ?_⟩
      push_cast
      rw [mul_assoc, hn]
      ring
  refine floor_toNearest_add hn ?_ ?_
  · have hlast := lt_lastPlace (p := p) hx
    have hscaled := mul_le_mul_of_nonneg_right hlow hmK.le
    have hleft : 2 * ((a : K) * m / b - r * m) = 2 * (a / b - r) * m := by ring
    have hright : r / 2 ^ p * m = r * m / 2 ^ p := by ring
    rw [hleft]
    linarith
  · -- what is not reached is missed by half a part of `b`
    have hmiss : (a : K) * m / b + c + 1 / (2 * b) ≤ ⌊(a : K) * m / b + c⌋ + 1 := by
      have hlt := Int.lt_floor_add_one ((a : K) * m / b + c)
      set k := ⌊(a : K) * m / b + c⌋
      have hint : 2 * (a : K) * m + 2 * c * b + 1 ≤ 2 * b * (k + 1) := by
        have hmul := mul_lt_mul_of_pos_right hlt hbK
        rw [add_mul, div_mul_cancel₀ _ hbK.ne'] at hmul
        rcases hc with rfl | rfl
        · have hcast : ((2 * (a * m : ℕ) : ℤ) : K) < ((2 * (b * (k + 1)) : ℤ) : K) := by
            push_cast
            linarith
          have := Int.add_one_le_iff.2 (Int.cast_lt.1 hcast)
          have := Int.cast_le (R := K).2 this
          push_cast at this
          linarith
        · have hcast : ((2 * (a * m : ℕ) + b : ℤ) : K) < ((2 * (b * (k + 1)) : ℤ) : K) := by
            push_cast
            linarith
          have := Int.add_one_le_iff.2 (Int.cast_lt.1 hcast)
          have := Int.cast_le (R := K).2 this
          push_cast at this
          linarith
      have hdiv : (a : K) * m / b + c + 1 / (2 * b) = (2 * a * m + 2 * c * b + 1) / (2 * b) := by
        field_simp
      rw [hdiv, div_le_iff₀ (by positivity)]
      linarith
    have hlast := lastPlace_le (p := p) hx
    have hscaled := mul_le_mul_of_nonneg_right hhigh hmK.le
    have hsmall : (m : K) * 2 / 2 ^ p < 1 / (2 * b) := by
      rw [div_lt_div_iff₀ hpK (by positivity)]
      linarith
    have hle : r * m * 2 / 2 ^ p / 2 ≤ m / 2 ^ p := by
      rw [show r * m * 2 / 2 ^ p / 2 = r * m / 2 ^ p by ring]
      gcongr
    have hleft : r * m = a * m / b + (r - a / b) * m := by ring
    have hsum : 1 / 2 ^ p * (m : K) + m / 2 ^ p = m * 2 / 2 ^ p := by ring
    linarith

end Rounding
