/-
# The primality test

`isPrime` turns away the numbers that leave a remainder with two or with three, where it
should turn away those that leave none.  Every prime above three is therefore called
composite, and the trial loop is reached by the multiples of six only: of these it sees
that they are composite if a candidate divides them.
-/

import Cyancore.Nmath.MultiplicativeInverse
import Mathlib.Algebra.Ring.Int.Parity
import Mathlib.Data.Nat.Prime.Basic

namespace Cyancore.Nmath

open Cyancore.Math

/-- One turn of the trial loop of `isPrime`, with its head: the candidate is `i`. -/
def isPrimeTurn (longMax : ℕ) (x i : ℤ) : LongRun (Turn ℤ Bool) := do
  let square ← toLong longMax (i * i)
  if square ≤ x then
    let residue ← remainder longMax x i
    if residue = 0 then .done (.exit false)
    else
      let i ← toLong longMax (i + 2)
      .done (.next i)
  else .done (.exit true)

/-- `isPrime`. -/
def isPrime (longMax : ℕ) (x : ℤ) (fuel : ℕ) : LongRun Bool :=
  if x < 2 then .done false
  else if x ≤ 3 then .done true
  else do
    let byTwo ← remainder longMax x 2
    if byTwo ≠ 0 then .done false
    else
      let byThree ← remainder longMax x 3
      if byThree ≠ 0 then .done false
      else loop (isPrimeTurn longMax x) fuel 5

/-- The call returns whether the number is prime. -/
def DecidesPrime (longMax : ℕ) (x : ℤ) : Prop :=
  ∃ verdict, Returns (isPrime longMax x) verdict ∧ (verdict = true ↔ x.toNat.Prime)

/-- A candidate of the trial loop whose square is not above the number. -/
structure Candidate (x i : ℤ) : Prop where
  five_le : 5 ≤ i
  odd : Odd i
  sq_le : i * i ≤ x

theorem fuelMono_isPrime (longMax : ℕ) (x : ℤ) : FuelMono (isPrime longMax x) := by
  unfold isPrime
  split
  · exact fuelMono_const _
  · split
    · exact fuelMono_const _
    · refine FuelMono.bind (fuelMono_const _) fun byTwo => ?_
      split
      · exact fuelMono_const _
      · refine FuelMono.bind (fuelMono_const _) fun byThree => ?_
        split
        · exact fuelMono_const _
        · exact fuelMono_loop _ _

/-! ## The trial loop -/

section Trial

variable {longMax : ℕ} {x i : ℤ}

theorem Candidate.lt (h : Candidate x i) : i < x := by
  have hfive := h.five_le
  exact (lt_mul_self (by omega)).trans_le h.sq_le

/-- A turn with a candidate divides by it, and goes on to the next one. -/
theorem isPrimeTurn_of_candidate (h : Candidate x i) (hlong : x ≤ longMax) :
    isPrimeTurn longMax x i =
      if i ∣ x then .done (.exit false)
      else toLong longMax (i + 2) >>= fun next => .done (.next next) := by
  have hpos : 0 < i := by
    have hfive := h.five_le
    omega
  have hsquare : toLong longMax (i * i) = .done (i * i) := by
    apply toLong_of_abs_le
    rw [abs_of_nonneg (mul_self_nonneg i)]
    exact h.sq_le.trans hlong
  have hresidue := remainder_of_pos (hpos.trans h.lt).le hlong hpos
  rw [isPrimeTurn, hsquare, Outcome.done_bind, if_pos h.sq_le, hresidue, Outcome.done_bind]
  simp only [Int.dvd_iff_emod_eq_zero]

/-- The loop comes to a candidate that divides the number, or to one before it. -/
theorem returns_false_of_candidate {i j : ℤ} (hj : Candidate x j) (hdvd : j ∣ x)
    (hlong : x ≤ longMax) (hfive : 5 ≤ i) (hodd : Odd i) (hle : i ≤ j) :
    Returns (fun fuel => loop (isPrimeTurn longMax x) fuel i) false := by
  have hi : Candidate x i :=
    ⟨hfive, hodd, (mul_self_le_mul_self (by omega) hle).trans hj.sq_le⟩
  have hturn := isPrimeTurn_of_candidate hi hlong
  by_cases hi' : i ∣ x
  · rw [if_pos hi'] at hturn
    exact (returns_loop_of_exit hturn).mpr rfl
  · have hlt : i < j := lt_of_le_of_ne hle fun heq => hi' (heq ▸ hdvd)
    have hnext : i + 2 ≤ j := by
      -- both candidates are odd
      obtain ⟨k, rfl⟩ := hodd
      obtain ⟨l, rfl⟩ := hj.odd
      omega
    have hstep : toLong longMax (i + 2) = .done (i + 2) := by
      apply toLong_of_abs_le
      rw [abs_of_nonneg (by omega)]
      exact (hnext.trans hj.lt.le).trans hlong
    rw [if_neg hi', hstep, Outcome.done_bind] at hturn
    exact (returns_loop_of_next hturn).mpr
      (returns_false_of_candidate hj hdvd hlong (by omega) (hodd.add_even even_two) hnext)
termination_by (j - i).toNat

/-- A candidate with too large a square ends the loop, or has none in a `long`. -/
theorem isPrimeTurn_of_lt (h : x < i * i) {turn : Turn ℤ Bool}
    (hturn : isPrimeTurn longMax x i = .done turn) : turn = .exit true := by
  obtain ⟨square, hsquare, hrest⟩ := Outcome.bind_eq_done_iff.mp hturn
  obtain rfl := eq_of_toLong hsquare
  rw [if_neg (not_le.mpr h)] at hrest
  exact (Outcome.done.inj hrest).symm

/-- The loop calls no number composite that has no candidate for a divisor. -/
theorem exists_candidate_of_returns_false (hlong : x ≤ longMax)
    (hreturns : Returns (fun fuel => loop (isPrimeTurn longMax x) fuel 5) false) :
    ∃ i, Candidate x i ∧ i ∣ x := by
  obtain ⟨fuel, hfuel⟩ := hreturns
  refine @loop_invariant _ _ _ (isPrimeTurn longMax x) (fun i => 5 ≤ i ∧ Odd i)
    (fun verdict => verdict = false → ∃ i, Candidate x i ∧ i ∣ x)
    ?_ ?_ 5 ⟨le_rfl, by decide⟩ fuel false hfuel rfl
  · intro i next hi hturn
    by_cases hsq : i * i ≤ x
    · rw [isPrimeTurn_of_candidate ⟨hi.1, hi.2, hsq⟩ hlong] at hturn
      split at hturn
      · cases hturn
      · obtain ⟨next', hnext', hdone⟩ := Outcome.bind_eq_done_iff.mp hturn
        obtain rfl := eq_of_toLong hnext'
        cases hdone
        exact ⟨hi.1.trans (by omega), hi.2.add_even even_two⟩
    · cases isPrimeTurn_of_lt (not_le.mp hsq) hturn
  · intro i verdict hi hturn hfalse
    by_cases hsq : i * i ≤ x
    · have hcandidate : Candidate x i := ⟨hi.1, hi.2, hsq⟩
      rw [isPrimeTurn_of_candidate hcandidate hlong] at hturn
      split at hturn
      · exact ⟨i, hcandidate, by assumption⟩
      · obtain ⟨next', -, hdone⟩ := Outcome.bind_eq_done_iff.mp hturn
        cases hdone
    · have hexit := isPrimeTurn_of_lt (not_le.mp hsq) hturn
      rw [hfalse] at hexit
      cases hexit

end Trial

/-! ## The verdict -/

section Verdict

variable {longMax : ℕ} {x i : ℤ}

theorem not_prime_of_dvd (hone : 1 < i) (hlt : i < x) (hdvd : i ∣ x) : ¬ x.toNat.Prime := by
  lift x to ℕ using (by omega)
  lift i to ℕ using (by omega)
  rw [Int.toNat_natCast]
  exact Nat.not_prime_of_dvd_of_lt (Int.natCast_dvd_natCast.mp hdvd) (by omega) (by omega)

theorem Candidate.not_prime (h : Candidate x i) (hdvd : i ∣ x) : ¬ x.toNat.Prime := by
  have hfive := h.five_le
  exact not_prime_of_dvd (by omega) h.lt hdvd

/-- The numbers up to three are told apart before anything is divided. -/
theorem decidesPrime_of_le_three (h : x ≤ 3) : DecidesPrime longMax x := by
  by_cases htwo : x < 2
  · refine ⟨false, ⟨0, if_pos htwo⟩, ?_⟩
    have hnot : ¬ x.toNat.Prime := fun hprime => absurd hprime.two_le (by omega)
    exact iff_of_false Bool.false_ne_true hnot
  · have hprime : x.toNat.Prime := by
      obtain rfl | rfl : x = 2 ∨ x = 3 := by omega
      · exact Nat.prime_two
      · exact Nat.prime_three
    exact ⟨true, ⟨0, (if_neg htwo).trans (if_pos h)⟩, iff_of_true rfl hprime⟩

/-- Above three the trial loop is for the multiples of six. -/
theorem isPrime_of_three_lt (h : 3 < x) (hlong : x ≤ longMax) (fuel : ℕ) :
    isPrime longMax x fuel =
      if 6 ∣ x then loop (isPrimeTurn longMax x) fuel 5 else .done false := by
  have hnonneg : 0 ≤ x := by omega
  rw [isPrime, if_neg (by omega), if_neg (not_le.mpr h),
    remainder_of_pos hnonneg hlong (by decide), remainder_of_pos hnonneg hlong (by decide)]
  simp only [Outcome.done_bind]
  by_cases hsix : 6 ∣ x
  · rw [if_pos hsix, if_neg (by omega), if_neg (by omega)]
  · rw [if_neg hsix]
    by_cases htwo : x % 2 = 0
    · rw [if_neg (not_not.mpr htwo), if_pos (by omega)]
    · rw [if_pos htwo]

theorem isPrime_of_not_six_dvd (h : 3 < x) (hlong : x ≤ longMax) (hsix : ¬ 6 ∣ x) :
    Returns (isPrime longMax x) false :=
  ⟨0, (isPrime_of_three_lt h hlong 0).trans (if_neg hsix)⟩

/-- Above three a number is called composite for either of two reasons. -/
theorem returns_false_iff (h : 3 < x) (hlong : x ≤ longMax) :
    Returns (isPrime longMax x) false ↔ ¬ 6 ∣ x ∨ ∃ i, Candidate x i ∧ i ∣ x := by
  by_cases hsix : 6 ∣ x
  · have hloop : isPrime longMax x = fun fuel => loop (isPrimeTurn longMax x) fuel 5 := by
      funext fuel
      rw [isPrime_of_three_lt h hlong, if_pos hsix]
    rw [hloop]
    constructor
    · exact fun hreturns => Or.inr (exists_candidate_of_returns_false hlong hreturns)
    · rintro (hnot | ⟨i, hi, hdvd⟩)
      · exact absurd hsix hnot
      · exact returns_false_of_candidate hi hdvd hlong le_rfl (by decide) hi.five_le
  · exact iff_of_true (isPrime_of_not_six_dvd h hlong hsix) (Or.inl hsix)

/-- No prime above three is a multiple of six, and so none is called prime. -/
theorem not_decidesPrime_of_prime (h : 3 < x) (hlong : x ≤ longMax) (hprime : x.toNat.Prime) :
    ¬ DecidesPrime longMax x := by
  rintro ⟨verdict, hverdict, hiff⟩
  have hsix : ¬ 6 ∣ x := fun hdvd =>
    not_prime_of_dvd (by decide) h ((show (3 : ℤ) ∣ 6 by decide).trans hdvd) hprime
  obtain rfl := hverdict.unique (fuelMono_isPrime longMax x)
    (isPrime_of_not_six_dvd h hlong hsix)
  exact Bool.false_ne_true (hiff.mpr hprime)

end Verdict

/-- The call is right about the numbers up to three, about the composite numbers that six
does not divide, and about those that a candidate of the trial loop divides. -/
theorem decidesPrime_iff (longMax : ℕ) (x : ℤ) (hlong : x ≤ longMax) :
    DecidesPrime longMax x ↔
      x ≤ 3 ∨ (¬ 6 ∣ x ∧ ¬ x.toNat.Prime) ∨ ∃ i, Candidate x i ∧ i ∣ x := by
  by_cases hthree : x ≤ 3
  · exact iff_of_true (decidesPrime_of_le_three hthree) (Or.inl hthree)
  have hless : 3 < x := not_le.mp hthree
  by_cases hprime : x.toNat.Prime
  · refine iff_of_false (not_decidesPrime_of_prime hless hlong hprime) ?_
    rintro (hle | ⟨-, hnot⟩ | ⟨i, hi, hdvd⟩)
    · exact hthree hle
    · exact hnot hprime
    · exact hi.not_prime hdvd hprime
  · have hdecides : DecidesPrime longMax x ↔ Returns (isPrime longMax x) false := by
      constructor
      · rintro ⟨verdict, hverdict, hiff⟩
        rwa [Bool.eq_false_iff.mpr fun htrue => hprime (hiff.mp htrue)] at hverdict
      · exact fun hfalse => ⟨false, hfalse, iff_of_false Bool.false_ne_true hprime⟩
    rw [hdecides, returns_false_iff hless hlong, or_iff_right hthree, and_iff_left hprime]

/-- Thirty by the candidate five, and thirty-five before there is one. -/
theorem decidesPrime_thirty :
    DecidesPrime 2147483647 30 ∧ DecidesPrime 2147483647 35 := by
  have hfive : Candidate 30 5 := ⟨le_rfl, by decide, by decide⟩
  exact ⟨(decidesPrime_iff 2147483647 30 (by decide)).mpr (.inr (.inr ⟨5, hfive, by decide⟩)),
    (decidesPrime_iff 2147483647 35 (by decide)).mpr (.inr (.inl ⟨by decide, by decide⟩))⟩

/-- Five is called composite. -/
theorem not_decidesPrime_five : ¬ DecidesPrime 2147483647 5 :=
  not_decidesPrime_of_prime (by decide) (by decide) Nat.prime_five

end Cyancore.Nmath
