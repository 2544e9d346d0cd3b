/-
# Cofactors in the Euclidean algorithm

The algorithm is carried out on two numbers together with their cofactors: each remainder is
its cofactor times the second number, modulo the first.  The cofactors of two neighbouring
remainders have opposite signs, and weighted with each other's remainder they add up to the
first number, which therefore bounds them.

The module names no program.
-/

import Mathlib.Algebra.Order.Ring.Abs
import Mathlib.Data.Int.GCD
import Mathlib.Data.Int.ModEq
import Mathlib.Tactic.Ring

namespace Cyancore.Math

/-- Two neighbouring remainders of the algorithm on a modulus and a number, with their
cofactors. -/
structure Cofactors (modulus number t t' r r' : ℤ) : Prop where
  nonneg : 0 ≤ r'
  lt : r' < r
  weights : |t| * r' + |t'| * r = modulus
  signs : t * t' ≤ 0
  congr : t * number ≡ r [ZMOD modulus]
  congr' : t' * number ≡ r' [ZMOD modulus]
  gcd_eq : Int.gcd r r' = Int.gcd modulus number

/-- Numbers of opposite signs are as far apart as they are from zero together. -/
theorem abs_sub_of_opposite {x y : ℤ} (h : x * y ≤ 0) : |x - y| = |x| + |y| := by
  rw [sub_eq_add_neg, ← abs_neg y, abs_add_eq_add_abs_iff, Int.neg_nonneg, Int.neg_nonpos_iff]
  exact Int.mul_nonpos_iff.mp h

namespace Cofactors

variable {modulus number t t' r r' : ℤ}

theorem start (hnonneg : 0 ≤ number) (hlt : number < modulus) :
    Cofactors modulus number 0 1 modulus number where
  nonneg := hnonneg
  lt := hlt
  weights := by rw [abs_zero, zero_mul, zero_add, abs_one, one_mul]
  signs := by rw [zero_mul]
  congr := by
    rw [zero_mul]
    exact (Int.modEq_zero_iff_dvd.mpr dvd_rfl).symm
  congr' := by rw [one_mul]
  gcd_eq := rfl

theorem quotient_nonneg (h : Cofactors modulus number t t' r r') : 0 ≤ r / r' :=
  Int.ediv_nonneg (h.nonneg.trans h.lt.le) h.nonneg

/-- The next cofactor is as large as the last one and what is subtracted from it together. -/
theorem abs_next (h : Cofactors modulus number t t' r r') :
    |t - r / r' * t'| = |t| + r / r' * |t'| := by
  have hopposite : t * (r / r' * t') ≤ 0 := by
    rw [mul_left_comm]
    exact mul_nonpos_of_nonneg_of_nonpos h.quotient_nonneg h.signs
  rw [abs_sub_of_opposite hopposite, abs_mul, abs_of_nonneg h.quotient_nonneg]

/-- One division. -/
theorem step (h : Cofactors modulus number t t' r r') (hpos : 0 < r') :
    Cofactors modulus number t' (t - r / r' * t') r' (r % r') where
  nonneg := Int.emod_nonneg r hpos.ne'
  lt := Int.emod_lt_of_pos r hpos
  weights := by
    rw [h.abs_next, Int.emod_def, ← h.weights]
    ring
  signs := by
    have hsquare : 0 ≤ r / r' * (t' * t') := mul_nonneg h.quotient_nonneg (mul_self_nonneg t')
    have hsplit : t' * (t - r / r' * t') = t * t' - r / r' * (t' * t') := by ring
    rw [hsplit]
    exact sub_nonpos.mpr (h.signs.trans hsquare)
  congr := h.congr'
  congr' := by
    rw [sub_mul, mul_assoc, Int.emod_def, mul_comm r' (r / r')]
    exact h.congr.sub (h.congr'.mul_left _)
  gcd_eq := by rw [Int.emod_def, Int.gcd_sub_mul_left_right, Int.gcd_comm, h.gcd_eq]

/-- A cofactor is bounded by the modulus as long as the remainder beside it is not zero. -/
theorem abs_le (h : Cofactors modulus number t t' r r') : |t'| ≤ modulus := by
  have hrem : 0 < r := h.nonneg.trans_lt h.lt
  have hshare : 0 ≤ |t| * r' := mul_nonneg (abs_nonneg t) h.nonneg
  calc |t'| ≤ |t'| * r := le_mul_of_one_le_right (abs_nonneg t') hrem
    _ ≤ |t| * r' + |t'| * r := le_add_of_nonneg_left hshare
    _ = modulus := h.weights

/-- What is subtracted on the way is bounded too. -/
theorem abs_product_le (h : Cofactors modulus number t t' r r') (hpos : 0 < r') :
    |r / r' * t'| ≤ modulus := by
  rw [abs_mul, abs_of_nonneg h.quotient_nonneg]
  calc r / r' * |t'| ≤ |t| + r / r' * |t'| := le_add_of_nonneg_left (abs_nonneg t)
    _ = |t - r / r' * t'| := h.abs_next.symm
    _ ≤ modulus := (h.step hpos).abs_le

end Cofactors

end Cyancore.Math
