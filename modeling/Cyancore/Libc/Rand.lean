/-
# Random numbers

`rand` multiplies its seed by a constant, adds another and returns the new seed.  The
multiplier is one more than a multiple of four and the summand is odd, whatever the width of
`unsigned int`, so that the seeds run through all numbers of that width before one comes
back.
-/

import Cyancore.Math.Congruential
import Mathlib.Data.BitVec
import Mathlib.Data.Fintype.Card

namespace Cyancore.Libc

open Cyancore.Math

variable {width : ℕ}

/-- `srand`: the seed that is set, whatever it was. -/
def srand (_randseed seed : BitVec width) : BitVec width := seed

/-- `rand`, with the number it returns and the seed it leaves. -/
def rand (randseed : BitVec width) : BitVec width × BitVec width :=
  let randseed := randseed * BitVec.ofNat width 0xa5 + BitVec.ofNat width 0x2673
  (randseed, randseed)

/-- What a call returns after so many others. -/
def draw (randseed : BitVec width) : ℕ → BitVec width
  | 0 => (rand randseed).1
  | n + 1 => draw (rand randseed).2 n

/-- The numbers returned are all different until each has come once, and then repeat. -/
structure FullPeriod (randseed : BitVec width) : Prop where
  distinct : ∀ m < 2 ^ width, ∀ n < 2 ^ width, draw randseed m = draw randseed n → m = n
  complete : ∀ value, ∃! n, n < 2 ^ width ∧ draw randseed n = value
  repeats : ∀ n, draw randseed (n + 2 ^ width) = draw randseed n

theorem rand_ofNat (x : ℕ) :
    rand (BitVec.ofNat width x) =
      (BitVec.ofNat width (congruentialStep 0xa4 0x2673 x),
        BitVec.ofNat width (congruentialStep 0xa4 0x2673 x)) := by
  rw [congruentialStep, Nat.mul_comm, BitVec.ofNat_add, BitVec.ofNat_mul]
  rfl

/-- What is drawn are the numbers of the congruential sequence, cut to the width. -/
theorem draw_ofNat (x n : ℕ) :
    draw (BitVec.ofNat width x) n =
      BitVec.ofNat width ((congruentialStep 0xa4 0x2673)^[n + 1] x) := by
  induction n generalizing x with
  | zero => rw [draw, rand_ofNat, Function.iterate_one]
  | succ n ih => rw [draw, rand_ofNat, ih, ← Function.iterate_succ_apply]

theorem draw_eq_draw_iff (randseed : BitVec width) (m n : ℕ) :
    draw randseed m = draw randseed n ↔ m ≡ n [MOD 2 ^ width] := by
  have hseed : randseed = BitVec.ofNat width randseed.toNat := by
    rw [BitVec.ofNat_toNat, BitVec.setWidth_eq]
  rw [hseed, draw_ofNat, draw_ofNat, ← BitVec.toNat_inj, BitVec.toNat_ofNat, BitVec.toNat_ofNat]
  refine (iterate_congruentialStep_modEq_iff (by decide) (by decide) width _ _ _).trans ?_
  exact ⟨Nat.ModEq.add_right_cancel' 1, Nat.ModEq.add_right 1⟩

/-- From every seed `rand` has the full period. -/
theorem fullPeriod (randseed seed : BitVec width) : FullPeriod (srand randseed seed) := by
  have hdistinct : ∀ m < 2 ^ width, ∀ n < 2 ^ width,
      draw (srand randseed seed) m = draw (srand randseed seed) n → m = n := by
    intro m hm n hn hsame
    exact Nat.ModEq.eq_of_lt_of_lt ((draw_eq_draw_iff _ _ _).mp hsame) hm hn
  -- As many different numbers as there are, so that none is missing.
  have hall : Function.Surjective fun place : Fin (2 ^ width) =>
      (draw (srand randseed seed) place).toFin := by
    apply Finite.surjective_of_injective
    intro m n hsame
    exact Fin.ext (hdistinct m m.isLt n n.isLt (BitVec.toFin_inj.mp hsame))
  constructor
  case distinct => exact hdistinct
  case complete =>
    intro value
    obtain ⟨place, hplace⟩ := hall value.toFin
    have hvalue : draw (srand randseed seed) place = value := BitVec.toFin_inj.mp hplace
    refine ⟨place, ⟨place.isLt, hvalue⟩, ?_⟩
    rintro n ⟨hn, hsame⟩
    exact hdistinct n hn place place.isLt (hsame.trans hvalue.symm)
  case repeats =>
    intro n
    rw [draw_eq_draw_iff]
    exact Nat.add_mod_right n _

end Cyancore.Libc
