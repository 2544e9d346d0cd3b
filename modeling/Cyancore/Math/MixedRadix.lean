/-
# The order of mixed-radix numbers

A number written with digits of different radices is compared digit by digit from the top,
provided every digit but the topmost stays below its radix.
-/

import Mathlib.Data.Prod.Lex
import Mathlib.Order.Lattice

namespace Cyancore.Math

universe u

variable {α : Type u} [LE α]

/-- Two values are in the order of two numbers. -/
structure SameOrder (first second : α) (value value' : ℕ) : Prop where
  le : first ≤ second ↔ value ≤ value'
  ge : second ≤ first ↔ value' ≤ value

theorem SameOrder.refl (value value' : ℕ) : SameOrder value value' value value' where
  le := Iff.rfl
  ge := Iff.rfl

/-- With equal digits the rest decides, and otherwise the digits do. -/
theorem toLex_le_iff {digit digit' value value' radix : ℕ} {rest rest' : α}
    (hrest : rest ≤ rest' ↔ value ≤ value') (hvalue : value < radix) (hvalue' : value' < radix) :
    toLex (digit, rest) ≤ toLex (digit', rest') ↔
      digit * radix + value ≤ digit' * radix + value' := by
  rw [Prod.Lex.toLex_le_toLex, hrest]
  rcases Nat.lt_trichotomy digit digit' with hlt | heq | hgt
  · have hmul : (digit + 1) * radix ≤ digit' * radix := Nat.mul_le_mul_right radix hlt
    rw [Nat.succ_mul] at hmul
    exact iff_of_true (.inl hlt) (by omega)
  · simp [heq]
  · have hmul : (digit' + 1) * radix ≤ digit * radix := Nat.mul_le_mul_right radix hgt
    rw [Nat.succ_mul] at hmul
    apply iff_of_false
    · rintro (hlt | ⟨heq, -⟩)
      · exact absurd hlt (Nat.not_lt.mpr hgt.le)
      · exact absurd heq hgt.ne'
    · omega

/-- A digit in front of values that are in the order of their numbers. -/
theorem SameOrder.cons {first second : α} {value value' radix : ℕ}
    (horder : SameOrder first second value value') (hvalue : value < radix)
    (hvalue' : value' < radix) (digit digit' : ℕ) :
    SameOrder (toLex (digit, first)) (toLex (digit', second)) (digit * radix + value)
      (digit' * radix + value') where
  le := toLex_le_iff horder.le hvalue hvalue'
  ge := toLex_le_iff horder.ge hvalue' hvalue

end Cyancore.Math
