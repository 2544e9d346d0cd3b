/-
# Reading the counter of the CLINT

`mtime` is a counter of 64 bits behind two registers of 32, and it goes on counting while
it is read.  `clint_read_time` reads the upper half before and after the lower one, and
tries again until both readings agree.  The platforms of SiFive and of Ibex have the same
function.

The counter is given by what it holds at each of the moments at which the core reads one
of its registers.  It may advance by any amount from one moment to the next.
-/

import Cyancore.Math.Outcome
import Mathlib.Order.Monotone.Basic

namespace Cyancore.Driver

open Cyancore.Math

/-! ## The driver -/

/-- How reading the time can leave its defined behaviour. -/
inductive TimerFault
  | /-- A division by zero. -/
    divideByZero
  deriving DecidableEq, Repr

/-- The body of the loop in `clint_read_time`; the value of `*_time` comes with the moment after
the last reading. -/
def clintReadTurn (mtime : ℕ → BitVec 64) (now : ℕ) :
    Outcome TimerFault (Turn ℕ (BitVec 64 × ℕ)) :=
  let temp := (mtime now).extractLsb' 32 32
  let tl := (mtime (now + 1)).extractLsb' 0 32
  let th := (mtime (now + 2)).extractLsb' 32 32
  if temp ≠ th then .done (.next (now + 3))
  else .done (.exit (th.setWidth 64 <<< 32 ||| tl.setWidth 64, now + 3))

/-- `clint_read_time`, from a moment on. -/
def clintReadTime (mtime : ℕ → BitVec 64) (fuel now : ℕ) : Outcome TimerFault (BitVec 64 × ℕ) :=
  loop (clintReadTurn mtime) fuel now

/-! ## Halves -/

/-- A word is put together from its halves. -/
theorem halves_eq (word : BitVec 64) :
    (word.extractLsb' 32 32).setWidth 64 <<< 32 ||| (word.extractLsb' 0 32).setWidth 64 = word := by
  apply BitVec.eq_of_getLsbD_eq
  intro i hi
  by_cases hlow : i < 32
  · simp [hlow, hi]
  · simp [hlow, hi, show i - 32 < 32 by omega, show 32 + (i - 32) = i by omega]

/-- Between two numbers with the same upper half there is no other upper half. -/
theorem upper_eq_of_between {first middle last : BitVec 64} (hfirst : first.toNat ≤ middle.toNat)
    (hlast : middle.toNat ≤ last.toNat)
    (hsame : first.extractLsb' 32 32 = last.extractLsb' 32 32) :
    middle.extractLsb' 32 32 = last.extractLsb' 32 32 := by
  have hupper (word : BitVec 64) : (word.extractLsb' 32 32).toNat = word.toNat / 2 ^ 32 := by
    have hword : word.toNat < 2 ^ 64 := word.isLt
    rw [BitVec.extractLsb'_toNat, Nat.shiftRight_eq_div_pow]
    exact Nat.mod_eq_of_lt (by omega)
  have hsame' := congrArg BitVec.toNat hsame
  apply BitVec.eq_of_toNat_eq
  rw [hupper, hupper] at *
  omega

/-! ## A reading -/

variable {mtime : ℕ → BitVec 64}

/-- A turn that leaves the loop has the value of the moment between its two upper readings. -/
theorem clintReadTurn_exit (hmono : Monotone fun now => (mtime now).toNat) {now : ℕ}
    {value : BitVec 64} {later : ℕ}
    (hturn : clintReadTurn mtime now = .done (.exit (value, later))) :
    value = mtime (now + 1) ∧ later = now + 3 := by
  rw [clintReadTurn] at hturn
  split at hturn
  case isTrue hdiffer => cases hturn
  case isFalse hsame =>
      cases hturn
      have hsame' := not_not.mp hsame
      have hmiddle := upper_eq_of_between (hmono (Nat.le_succ now)) (hmono (Nat.le_succ (now + 1)))
        hsame'
      exact ⟨by rw [← hmiddle, halves_eq], rfl⟩

/-- A turn that goes round has made three readings. -/
theorem clintReadTurn_next {now now' : ℕ}
    (hturn : clintReadTurn mtime now = .done (.next now')) : now' = now + 3 := by
  rw [clintReadTurn] at hturn
  split at hturn
  · cases hturn
    rfl
  · cases hturn

/-- A call that returns has made three readings in each turn, and returns what the counter held
at the middle one of the last turn. -/
theorem clintReadTime_eq (hmono : Monotone fun now => (mtime now).toNat) {now : ℕ}
    {value : BitVec 64} {later : ℕ}
    (hread : Returns (fun fuel => clintReadTime mtime fuel now) (value, later)) :
    ∃ turns, later = now + 3 * turns + 3 ∧ value = mtime (now + 3 * turns + 1) := by
  obtain ⟨fuel, hfuel⟩ := hread
  apply @loop_invariant _ _ _ (clintReadTurn mtime) (fun state => ∃ turns, state = now + 3 * turns)
    (fun ret => ∃ turns, ret.2 = now + 3 * turns + 3 ∧ ret.1 = mtime (now + 3 * turns + 1))
    _ _ _ ⟨0, rfl⟩ _ _ hfuel
  · rintro state state' ⟨turns, rfl⟩ hturn
    exact ⟨turns + 1, by rw [clintReadTurn_next hturn]; omega⟩
  · rintro state ⟨value, later⟩ ⟨turns, rfl⟩ hturn
    obtain ⟨hvalue, hlater⟩ := clintReadTurn_exit hmono hturn
    exact ⟨turns, hlater, hvalue⟩

/-- No later call returns less. -/
theorem clintReadTime_le (hmono : Monotone fun now => (mtime now).toNat) {now now' : ℕ}
    {value value' : BitVec 64} {later later' : ℕ}
    (hread : Returns (fun fuel => clintReadTime mtime fuel now) (value, later))
    (hafter : later ≤ now')
    (hread' : Returns (fun fuel => clintReadTime mtime fuel now') (value', later')) :
    value.toNat ≤ value'.toNat := by
  obtain ⟨turns, rfl, rfl⟩ := clintReadTime_eq hmono hread
  obtain ⟨turns', -, rfl⟩ := clintReadTime_eq hmono hread'
  exact hmono (by omega)

/-- While the counter does not go back, a call that returns has the value that the counter held
at the reading of the lower half in the last turn; and no later call returns less. -/
theorem clintReadTime_not_torn (hmono : Monotone fun now => (mtime now).toNat) {now : ℕ}
    {value : BitVec 64} {later : ℕ}
    (hread : Returns (fun fuel => clintReadTime mtime fuel now) (value, later)) :
    (∃ turns, later = now + 3 * turns + 3 ∧ value = mtime (now + 3 * turns + 1)) ∧
      ∀ now' value' later', later ≤ now' →
        Returns (fun fuel => clintReadTime mtime fuel now') (value', later') →
          value.toNat ≤ value'.toNat :=
  ⟨clintReadTime_eq hmono hread, fun _ _ _ hafter hread' =>
    clintReadTime_le hmono hread hafter hread'⟩

/-- A counter that carries into its upper half while it is read. -/
def carryingMtime (now : ℕ) : BitVec 64 := if now < 2 then 0xffffffff else 0x100000000

theorem monotone_carryingMtime : Monotone fun now => (carryingMtime now).toNat := by
  intro now now' hle
  simp only [carryingMtime]
  by_cases hnow : now' < 2
  · rw [if_pos (lt_of_le_of_lt hle hnow), if_pos hnow]
  · rw [if_neg hnow]
    split
    · decide
    · rfl

/-- The first turn is thrown away. -/
theorem clintReadTime_not_torn_carrying :
    Returns (fun fuel => clintReadTime carryingMtime fuel 0) (0x100000000, 6) ∧
      ∃ turns, 6 = 0 + 3 * turns + 3 ∧ 0x100000000 = carryingMtime (0 + 3 * turns + 1) := by
  have hread : Returns (fun fuel => clintReadTime carryingMtime fuel 0) (0x100000000, 6) :=
    ⟨2, by decide⟩
  exact ⟨hread, (clintReadTime_not_torn monotone_carryingMtime hread).1⟩

end Cyancore.Driver
