/-
# Quotients that lose something

A quotient is rounded up where the rest is counted, and it comes out too small where the
product above it has wrapped.
-/

import Mathlib.Algebra.Order.Floor.Div

namespace Cyancore.Math

/-- Whole parts, and one more for a rest, round up. -/
theorem div_add_rest_eq_ceilDiv (a : ℕ) {b : ℕ} (hb : 0 < b) :
    a / b + (if a % b ≠ 0 then 1 else 0) = a ⌈/⌉ b := by
  rw [Nat.ceilDiv_eq_add_pred_div]
  have hsplit : a = a % b + b * (a / b) := (Nat.mod_add_div a b).symm
  by_cases hrest : a % b = 0
  · have hsum : a + b - 1 = b - 1 + b * (a / b) := by omega
    rw [if_neg (not_not.mpr hrest), hsum, Nat.add_mul_div_left _ _ hb,
      Nat.div_eq_of_lt (Nat.sub_lt hb Nat.one_pos), Nat.zero_add, Nat.add_zero]
  · have hsum : a + b - 1 = a % b - 1 + b * (a / b + 1) := by
      rw [Nat.mul_succ]
      omega
    have hlt : a % b - 1 < b := lt_of_le_of_lt (Nat.sub_le _ _) (Nat.mod_lt a hb)
    rw [if_pos hrest, hsum, Nat.add_mul_div_left _ _ hb, Nat.div_eq_of_lt hlt, Nat.zero_add]

/-- Whole units come out of a rounded quotient. -/
theorem mul_add_ceilDiv (units a : ℕ) {b : ℕ} (hb : 0 < b) :
    (units * b + a) ⌈/⌉ b = units + a ⌈/⌉ b := by
  have hsum : units * b + a + b - 1 = a + b - 1 + b * units := by
    rw [Nat.mul_comm b units]
    omega
  rw [Nat.ceilDiv_eq_add_pred_div, Nat.ceilDiv_eq_add_pred_div, hsum,
    Nat.add_mul_div_left _ _ hb, Nat.add_comm]

/-- Dividing a product that has lost its upper part gives less, for a divisor below the modulus. -/
theorem mod_div_eq_iff {product modulus divisor : ℕ} (hdivisor : 0 < divisor)
    (hmodulus : divisor ≤ modulus) :
    product % modulus / divisor = product / divisor ↔ product < modulus := by
  constructor
  · intro hsame
    by_contra hge
    have hlost : product % modulus + modulus ≤ product := by
      have hquotient : 1 ≤ product / modulus :=
        (Nat.one_le_div_iff (hdivisor.trans_le hmodulus)).mpr (not_lt.mp hge)
      calc product % modulus + modulus
          ≤ product % modulus + modulus * (product / modulus) :=
            Nat.add_le_add_left (Nat.le_mul_of_pos_right modulus hquotient) _
        _ = product := Nat.mod_add_div product modulus
    have hless : product % modulus / divisor + 1 ≤ product / divisor := by
      rw [← Nat.add_div_right _ hdivisor]
      exact Nat.div_le_div_right ((Nat.add_le_add_left hmodulus _).trans hlost)
    omega
  · intro hlt
    rw [Nat.mod_eq_of_lt hlt]

end Cyancore.Math
