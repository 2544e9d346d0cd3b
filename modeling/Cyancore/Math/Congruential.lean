/-
# The period of a congruential sequence

Each number of the sequence is a multiple of the one before, plus a constant.  When the
multiplier is one more than a multiple of four and the constant is odd, two numbers of the
sequence agree modulo a power of two exactly when their places do.

The difference of two numbers is an odd number times a sum of powers of the multiplier, so
everything comes down to this sum: it has as many factors of two as it has terms.

The module names no program.
-/

import Mathlib.Data.Nat.ModEq
import Mathlib.Data.Nat.Prime.Basic
import Mathlib.Logic.Function.Iterate
import Mathlib.Tactic.Ring

namespace Cyancore.Math

/-- One step of the sequence whose multiplier is one more than `b`. -/
def congruentialStep (b c x : ℕ) : ℕ := (b + 1) * x + c

/-- The sum of so many powers of one more than `b`, from the zeroth on. -/
def powerSum (b : ℕ) : ℕ → ℕ
  | 0 => 0
  | n + 1 => (b + 1) * powerSum b n + 1

section PowerSum

variable {b c : ℕ}

theorem powerSum_add (b m n : ℕ) :
    powerSum b (m + n) = (b + 1) ^ n * powerSum b m + powerSum b n := by
  induction n with
  | zero => rw [Nat.add_zero, pow_zero, powerSum, one_mul, Nat.add_zero]
  | succ n ih =>
      rw [← Nat.add_assoc, powerSum, ih, powerSum]
      ring

theorem powerSum_double (b n : ℕ) :
    powerSum b (n + n) = ((b + 1) ^ n + 1) * powerSum b n := by
  rw [powerSum_add, Nat.succ_mul]

/-- The difference of two numbers of the sequence. -/
theorem iterate_congruentialStep (b c n x : ℕ) :
    (congruentialStep b c)^[n] x = x + powerSum b n * (b * x + c) := by
  induction n with
  | zero => rw [Function.iterate_zero_apply, powerSum, zero_mul, Nat.add_zero]
  | succ n ih =>
      rw [Function.iterate_succ_apply', ih, congruentialStep, powerSum]
      ring

theorem powerSum_mod_two (hb : b % 2 = 0) (n : ℕ) : powerSum b n % 2 = n % 2 := by
  induction n with
  | zero => rfl
  | succ n ih =>
      have hterm : (b + 1) * powerSum b n % 2 = powerSum b n % 2 := by
        rw [Nat.succ_mul, Nat.add_mod, Nat.mul_mod, hb, zero_mul, Nat.zero_mod, zero_add,
          Nat.mod_mod]
      rw [powerSum, Nat.add_mod, hterm, ih, ← Nat.add_mod]

/-- Two powers of a number that is one modulo four add up to twice an odd number. -/
theorem exists_odd_pow_add_one (hb : b % 4 = 0) (n : ℕ) :
    ∃ odd, odd % 2 = 1 ∧ (b + 1) ^ n + 1 = 2 * odd := by
  have hpow : (b + 1) ^ n % 4 = 1 := by
    rw [Nat.pow_mod, Nat.add_mod, hb]
    exact congrArg (· % 4) (one_pow n)
  exact ⟨((b + 1) ^ n + 1) / 2, by omega, by omega⟩

/-- The sum has as many factors of two as it has terms. -/
theorem two_pow_dvd_powerSum_iff (hb : b % 4 = 0) (k n : ℕ) :
    2 ^ k ∣ powerSum b n ↔ 2 ^ k ∣ n := by
  induction k generalizing n with
  | zero => exact iff_of_true (one_dvd _) (one_dvd _)
  | succ k ih =>
      have hparity := powerSum_mod_two (by omega : b % 2 = 0) n
      rcases Nat.even_or_odd' n with ⟨m, rfl | rfl⟩
      · obtain ⟨odd, hodd, hsum⟩ := exists_odd_pow_add_one hb m
        have hcoprime : Nat.Coprime (2 ^ k) odd :=
          Nat.Coprime.pow_left k (Nat.coprime_two_left.mpr (Nat.odd_iff.mpr hodd))
        rw [two_mul m, powerSum_double, hsum, ← two_mul, pow_succ', mul_assoc,
          Nat.mul_dvd_mul_iff_left Nat.two_pos, Nat.mul_dvd_mul_iff_left Nat.two_pos,
          hcoprime.dvd_mul_left, ih]
      · have htwo : (2 : ℕ) ∣ 2 ^ (k + 1) := dvd_pow_self 2 (Nat.succ_ne_zero k)
        apply iff_of_false
        · intro hdvd
          have heven := Nat.mod_eq_zero_of_dvd (htwo.trans hdvd)
          omega
        · intro hdvd
          have heven := Nat.mod_eq_zero_of_dvd (htwo.trans hdvd)
          omega

end PowerSum

/-- Two numbers of the sequence agree modulo a power of two exactly when their places do. -/
theorem iterate_congruentialStep_modEq_iff {b c : ℕ} (hb : b % 4 = 0) (hc : c % 2 = 1)
    (k x m n : ℕ) :
    (congruentialStep b c)^[m] x ≡ (congruentialStep b c)^[n] x [MOD 2 ^ k] ↔
      m ≡ n [MOD 2 ^ k] := by
  wlog hle : m ≤ n generalizing m n
  · rw [Nat.ModEq.comm, this n m (le_of_not_ge hle), Nat.ModEq.comm]
  obtain ⟨d, rfl⟩ := Nat.exists_eq_add_of_le hle
  have hodd : (b * (congruentialStep b c)^[m] x + c) % 2 = 1 := by
    rw [Nat.add_mod, Nat.mul_mod, (by omega : b % 2 = 0), zero_mul, Nat.zero_mod, hc]
  have hcoprime : Nat.Coprime (2 ^ k) (b * (congruentialStep b c)^[m] x + c) :=
    Nat.Coprime.pow_left k (Nat.coprime_two_left.mpr (Nat.odd_iff.mpr hodd))
  rw [Nat.add_comm m d, Function.iterate_add_apply, iterate_congruentialStep b c d,
    Nat.modEq_iff_dvd' (Nat.le_add_right _ _), Nat.add_sub_cancel_left,
    hcoprime.dvd_mul_right, two_pow_dvd_powerSum_iff hb, Nat.add_comm d m,
    Nat.modEq_iff_dvd' (Nat.le_add_right _ _), Nat.add_sub_cancel_left]

end Cyancore.Math
