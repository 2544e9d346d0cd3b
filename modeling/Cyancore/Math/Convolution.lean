/-
# Linear convolution of two finite sequences

The entry of index `k` is the sum of the products whose indices add up to `k`.  The first
factors of these products stand next to each other, which is what a loop over them uses:
it starts where the second factor is the last of its sequence, or at zero, and stops at the
end of the first sequence or where the second factor is the first of its own.

The module names no program.
-/

import Mathlib.Algebra.BigOperators.Intervals
import Mathlib.Order.Interval.Finset.Nat

namespace Cyancore.Math

variable {R : Type*} [NonUnitalNonAssocSemiring R]

/-- The product of the entries `r` and `k - r`. -/
def convolutionTerm (a b : List R) (k r : ℕ) : R :=
  a.getD r 0 * b.getD (k - r) 0

/-- The sum of all products of an entry `r` of the first sequence and an entry `k - r` of
the second. -/
def convolution (a b : List R) (k : ℕ) : R :=
  ∑ r ∈ (Finset.range a.length).filter (fun r => r ≤ k ∧ k - r < b.length),
    convolutionTerm a b k r

/-- The first factors stand next to each other. -/
theorem convolution_eq_sum_Ico (a b : List R) (k : ℕ) :
    convolution a b k =
      ∑ r ∈ Finset.Ico (k + 1 - b.length) (min a.length (k + 1)), convolutionTerm a b k r := by
  have hwindow : (Finset.range a.length).filter (fun r => r ≤ k ∧ k - r < b.length) =
      Finset.Ico (k + 1 - b.length) (min a.length (k + 1)) := by
    ext r
    rw [Finset.mem_filter, Finset.mem_range, Finset.mem_Ico, lt_min_iff]
    omega
  rw [convolution, hwindow]

/-- From the last entry of the first sequence on, the sum goes up to this entry. -/
theorem convolution_of_le {a b : List R} {k : ℕ} (h : a.length ≤ k + 1) :
    convolution a b k =
      ∑ r ∈ Finset.Ico (k + 1 - b.length) a.length, convolutionTerm a b k r := by
  rw [convolution_eq_sum_Ico, min_eq_left h]

end Cyancore.Math
