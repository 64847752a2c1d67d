import Mathlib.Tactic

/-!
# 64-bit two's-complement integers

When the result of an operation on `Int64` is the integer one; and the same for operations on `ℤ`
whose result is wrapped by `wrap64`.
-/

namespace MachineInt

variable {a b : Int64}

/-- A sum that fits is exact. -/
theorem toInt_add_of_mem (hlo : -2 ^ 63 ≤ a.toInt + b.toInt) (hhi : a.toInt + b.toInt < 2 ^ 63) :
    (a + b).toInt = a.toInt + b.toInt := by
  rw [Int64.toInt_add]
  exact Int.bmod_eq_of_le (by omega) (by omega)

/-- A difference that fits is exact. -/
theorem toInt_sub_of_mem (hlo : -2 ^ 63 ≤ a.toInt - b.toInt) (hhi : a.toInt - b.toInt < 2 ^ 63) :
    (a - b).toInt = a.toInt - b.toInt := by
  rw [Int64.toInt_sub]
  exact Int.bmod_eq_of_le (by omega) (by omega)

/-- The difference of numbers that are not negative is exact. -/
theorem toInt_sub_of_nonneg (ha : 0 ≤ a.toInt) (hb : 0 ≤ b.toInt) :
    (a - b).toInt = a.toInt - b.toInt := by
  have ha' := a.toInt_lt
  have hb' := b.toInt_lt
  exact toInt_sub_of_mem (by omega) (by omega)

/-- A sum that is too large wraps to a negative number. -/
theorem toInt_add_neg (hhi : 2 ^ 63 ≤ a.toInt + b.toInt) : (a + b).toInt < 0 := by
  have ha := a.toInt_lt
  have hb := b.toInt_lt
  have hwrap : (a + b).toInt = a.toInt + b.toInt - 2 ^ 64 := by
    rw [Int64.toInt_add, ← Int.sub_bmod_right]
    exact Int.bmod_eq_of_le (by omega) (by omega)
  omega

theorem toInt_min : (min a b).toInt = min a.toInt b.toInt := by
  have hmin : min a b = if a ≤ b then a else b := rfl
  rw [hmin]
  split_ifs with h
  · rw [min_eq_left (Int64.le_iff_toInt_le.1 h)]
  · have hlt : b.toInt ≤ a.toInt := by
      rw [Int64.le_iff_toInt_le] at h
      omega
    rw [min_eq_right hlt]

theorem le_zero_iff : a ≤ 0 ↔ a.toInt ≤ 0 := Int64.le_iff_toInt_le

/-! ### Wrapped integers -/

/-- The integer is one of 64 bits. -/
def InInt64 (x : ℤ) : Prop := -2 ^ 63 ≤ x ∧ x < 2 ^ 63

instance (x : ℤ) : Decidable (InInt64 x) := inferInstanceAs (Decidable (_ ∧ _))

/-- The 64-bit integer that two's-complement arithmetic computes for `x`. -/
def wrap64 (x : ℤ) : ℤ := Int.bmod x (2 ^ 64)

variable {x : ℤ}

theorem wrap64_eq_self (h : InInt64 x) : wrap64 x = x :=
  Int.bmod_eq_of_le (by have := h.1; omega) (by have := h.2; omega)

/-- A sum of two 64-bit integers that is too large wraps below zero. -/
theorem wrap64_neg (hlo : 2 ^ 63 ≤ x) (hhi : x < 2 ^ 64) : wrap64 x < 0 := by
  have hwrap : wrap64 x = x - 2 ^ 64 := by
    rw [wrap64, ← Int.sub_bmod_right]
    exact Int.bmod_eq_of_le (by omega) (by omega)
  omega

theorem wrap64_abs (h : |x| < 2 ^ 63) : wrap64 |x| = |x| :=
  wrap64_eq_self ⟨by have := abs_nonneg x; omega, h⟩

end MachineInt
