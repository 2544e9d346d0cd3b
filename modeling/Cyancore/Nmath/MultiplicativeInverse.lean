/-
# The multiplicative inverse

`multiplicative_inverse` runs the Euclidean algorithm on its own arguments, with a cofactor
of each.  When it is done, the cofactor is an inverse of the subject modulo the base that was
passed in, and `base` holds the greatest common divisor.  The result is reduced modulo this
`base`: modulo one, wherever there is an inverse at all.

Every operation on a `long` is checked, so that a call that returns has left no coefficient
out of range.
-/

import Cyancore.Math.Cofactors
import Cyancore.Math.Outcome

namespace Cyancore.Nmath

open Cyancore.Math

/-- How an operation on a `long` can have no value. -/
inductive LongFault
  | overflow
  | divisionByZero
  deriving DecidableEq, Repr

/-- A call watched for a bounded number of loop turns. -/
abbrev LongRun (α : Type) := Outcome LongFault α

/-- A `long`, if the number is one. -/
def toLong (longMax : ℕ) (x : ℤ) : LongRun ℤ :=
  if -longMax - 1 ≤ x ∧ x ≤ longMax then .done x else .fault .overflow

/-- `a / b`. -/
def quotient (longMax : ℕ) (a b : ℤ) : LongRun ℤ :=
  if b = 0 then .fault .divisionByZero else toLong longMax (a.tdiv b)

/-- `a % b`, which has a value where `a / b` has one. -/
def remainder (longMax : ℕ) (a b : ℤ) : LongRun ℤ := do
  let _ ← quotient longMax a b
  .done (a.tmod b)

/-- `mod`. -/
def mod (longMax : ℕ) (a b : ℤ) : LongRun ℤ := do
  let ret ← remainder longMax a b
  if ret < 0 then toLong longMax (b + ret) else .done ret

/-- The variables of the loop in `multiplicative_inverse`. -/
structure InverseState where
  t1 : ℤ
  t2 : ℤ
  base : ℤ
  subject : ℤ

/-- One turn of the loop, which is left with `t1` and `base`. -/
def inverseTurn (longMax : ℕ) (state : InverseState) :
    LongRun (Turn InverseState (ℤ × ℤ)) :=
  if state.subject ≠ 0 then do
    let q ← quotient longMax state.base state.subject
    let r ← remainder longMax state.base state.subject
    let product ← toLong longMax (q * state.t2)
    let t ← toLong longMax (state.t1 - product)
    .done (.next ⟨state.t2, t, state.subject, r⟩)
  else .done (.exit (state.t1, state.base))

/-- `multiplicative_inverse`. -/
def multiplicativeInverse (longMax : ℕ) (base subject : ℤ) (fuel : ℕ) : LongRun ℤ := do
  let (t1, base) ← loop (inverseTurn longMax) fuel ⟨0, 1, base, subject⟩
  mod longMax t1 base

/-- The call returns the inverse of the subject modulo the base. -/
def Inverts (longMax : ℕ) (base subject : ℤ) : Prop :=
  ∃ x, Returns (multiplicativeInverse longMax base subject) x ∧ 0 ≤ x ∧ x < base ∧
    subject * x ≡ 1 [ZMOD base]

/-! ## The loop -/

section Loop

variable {longMax : ℕ} {modulus number t1 t2 base subject : ℤ}

theorem toLong_of_abs_le {x : ℤ} (hx : |x| ≤ longMax) : toLong longMax x = .done x := by
  have hrange := abs_le.mp hx
  exact if_pos ⟨by omega, hrange.2⟩

theorem eq_of_toLong {x y : ℤ} (h : toLong longMax x = .done y) : x = y := by
  unfold toLong at h
  split at h
  · exact Outcome.done.inj h
  · cases h

theorem quotient_of_pos (hbase : 0 ≤ base) (hlong : base ≤ longMax) (hpos : 0 < subject) :
    quotient longMax base subject = .done (base / subject) := by
  have hle := Int.ediv_le_self subject hbase
  have hnonneg := Int.ediv_nonneg hbase hpos.le
  rw [quotient, if_neg hpos.ne', Int.tdiv_eq_ediv_of_nonneg hbase, toLong_of_abs_le]
  rw [abs_of_nonneg hnonneg]
  exact hle.trans hlong

theorem remainder_of_pos (hbase : 0 ≤ base) (hlong : base ≤ longMax) (hpos : 0 < subject) :
    remainder longMax base subject = .done (base % subject) := by
  rw [remainder, quotient_of_pos hbase hlong hpos, Outcome.done_bind,
    Int.tmod_eq_emod_of_nonneg hbase]

/-- A turn is a step of the algorithm, and no coefficient leaves the range. -/
theorem inverseTurn_of_pos (h : Cofactors modulus number t1 t2 base subject)
    (hmodulus : modulus ≤ longMax) (hlong : base ≤ longMax) (hpos : 0 < subject) :
    inverseTurn longMax ⟨t1, t2, base, subject⟩ =
      .done (.next ⟨t2, t1 - base / subject * t2, subject, base % subject⟩) := by
  have hbase : 0 ≤ base := (hpos.trans h.lt).le
  have hq := quotient_of_pos hbase hlong hpos
  have hr := remainder_of_pos hbase hlong hpos
  have hproduct := toLong_of_abs_le ((h.abs_product_le hpos).trans hmodulus)
  have ht := toLong_of_abs_le ((h.step hpos).abs_le.trans hmodulus)
  rw [inverseTurn, if_pos hpos.ne', hq, hr]
  simp only [Outcome.done_bind, hproduct, ht]

/-- The loop ends with the greatest common divisor and a cofactor of it. -/
theorem returns_inverseTurn {t1 t2 base subject : ℤ}
    (h : Cofactors modulus number t1 t2 base subject) (hmodulus : modulus ≤ longMax)
    (hlong : base ≤ longMax) (ht1 : |t1| ≤ modulus) :
    ∃ t, Returns (fun fuel => loop (inverseTurn longMax) fuel ⟨t1, t2, base, subject⟩)
        (t, ↑(Int.gcd modulus number)) ∧
      |t| ≤ modulus ∧ t * number ≡ Int.gcd modulus number [ZMOD modulus] := by
  rcases h.nonneg.eq_or_lt with hzero | hpos
  · subst hzero
    have hgcd : base = Int.gcd modulus number := by
      rw [← h.gcd_eq, Int.gcd_zero_right, Int.natAbs_of_nonneg h.lt.le]
    have hturn : inverseTurn longMax ⟨t1, t2, base, 0⟩ = .done (.exit (t1, base)) :=
      if_neg (not_not.mpr rfl)
    rw [← hgcd]
    exact ⟨t1, (returns_loop_of_exit hturn).mpr rfl, ht1, h.congr⟩
  · have hnext := inverseTurn_of_pos h hmodulus hlong hpos
    have hless := Int.emod_lt_of_pos base hpos
    obtain ⟨t, hreturns, ht⟩ :=
      returns_inverseTurn (h.step hpos) hmodulus (h.lt.le.trans hlong) h.abs_le
    exact ⟨t, (returns_loop_of_next hnext).mpr hreturns, ht⟩
termination_by subject.toNat

end Loop

/-! ## The result -/

/-- Modulo one every number is zero. -/
theorem mod_one {longMax : ℕ} {a : ℤ} (ha : |a| ≤ longMax) : mod longMax a 1 = .done 0 := by
  rw [mod, remainder, quotient, if_neg one_ne_zero, Int.tdiv_one, toLong_of_abs_le ha,
    Outcome.done_bind, Outcome.done_bind, Int.tmod_one, if_neg (lt_irrefl 0)]

theorem fuelMono_multiplicativeInverse (longMax : ℕ) (base subject : ℤ) :
    FuelMono (multiplicativeInverse longMax base subject) :=
  FuelMono.bind (fuelMono_loop _ _) fun _ => fuelMono_const _

theorem not_inverts_of_returns_zero {longMax : ℕ} {base subject : ℤ} (hbase : 1 < base)
    (hzero : Returns (multiplicativeInverse longMax base subject) 0) :
    ¬ Inverts longMax base subject := by
  rintro ⟨x, hx, -, -, hinverse⟩
  obtain rfl := hx.unique (fuelMono_multiplicativeInverse longMax base subject) hzero
  rw [mul_zero] at hinverse
  have hdvd : base ∣ 1 := by
    rw [← sub_zero 1]
    exact Int.modEq_iff_dvd.mp hinverse
  exact absurd (Int.le_of_dvd one_pos hdvd) (not_le.mpr hbase)

/-- For every subject that has an inverse the call returns zero, which is none. -/
theorem not_inverts (longMax : ℕ) (base subject : ℤ) (hbase : 1 < base)
    (hlong : base ≤ longMax) (hpos : 0 < subject) (hlt : subject < base)
    (hcoprime : Int.gcd base subject = 1) :
    Returns (multiplicativeInverse longMax base subject) 0 ∧ ¬ Inverts longMax base subject := by
  have hzero : Returns (multiplicativeInverse longMax base subject) 0 := by
    have hstart := Cofactors.start hpos.le hlt
    have habs : |(0 : ℤ)| ≤ base := by
      rw [abs_zero]
      exact (hpos.trans hlt).le
    obtain ⟨t, ⟨fuel, hfuel⟩, ht, -⟩ := returns_inverseTurn hstart hlong hlong habs
    dsimp only at hfuel
    refine ⟨fuel, ?_⟩
    rw [multiplicativeInverse, hfuel, Outcome.done_bind, hcoprime]
    exact mod_one (ht.trans hlong)
  exact ⟨hzero, not_inverts_of_returns_zero hbase hzero⟩

theorem not_inverts_seven :
    Returns (multiplicativeInverse 2147483647 7 3) 0 ∧ ¬ Inverts 2147483647 7 3 :=
  not_inverts 2147483647 7 3 (by decide) (by decide) (by decide) (by decide) (by decide)

/-- The inverse of 2 modulo 5 is 3, and the call returns 0. -/
theorem not_inverts_five : ¬ Inverts 2147483647 5 2 :=
  not_inverts_of_returns_zero (by decide) ⟨4, by decide⟩

end Cyancore.Nmath
