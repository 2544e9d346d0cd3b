/-
# The spinlock of the RISC-V port without atomics

`spinlock.c` takes the key with interrupts disabled and enables them again between the
attempts.  `arch_di` clears the single enables too, and nothing in the file sets them
again.
-/

import Cyancore.Arch.Riscv
import Cyancore.Basic

namespace Cyancore.Locks

open Cyancore.Math Cyancore.Riscv

/-- A context in `spinlock_acquire`, about to make an attempt. -/
structure Spinner where
  status : Csrs
  key : Word
  attempt : ℕ

/-- A context that has the key, with the value that the key had when it was taken. -/
structure Acquired where
  status : Csrs
  key : Word
  taken : Word

/-- The body of the loop.  Between two attempts the other contexts do to the key what they
will. -/
def spinTurn (others : ℕ → Word → Word) (spinner : Spinner) : Run (Turn Spinner Acquired) :=
  let disabled := execCsr archDi spinner.status
  if spinner.key = 0 then
    .done (.exit ⟨disabled, 1, spinner.key⟩)
  else
    .done (.next
      ⟨execCsr archEi disabled, others spinner.attempt spinner.key, spinner.attempt + 1⟩)

/-- `spinlock_acquire`. -/
def spinlockAcquireRiscv (others : ℕ → Word → Word) (status : Csrs) (key : Word) (fuel : ℕ) :
    Run Acquired := do
  let acquired ← loop (spinTurn others) fuel ⟨status, key, 0⟩
  .done { acquired with status := execCsr archEi acquired.status }

/-- `spinlock_release`. -/
def spinlockReleaseRiscv (acquired : Acquired) : Acquired := { acquired with key := 0 }

variable {others : ℕ → Word → Word} {status : Csrs} {key : Word} {acquired : Acquired}

/-- However many attempts it takes, the key was free when it was taken, and the caller is
left with the global enable set and the single ones clear. -/
theorem spinlockAcquireRiscv_returns
    (hreturn : Returns (spinlockAcquireRiscv others status key) acquired) :
    acquired.taken = 0 ∧ (acquired.status .mstatus).getLsbD mieBit = true ∧
      enables (acquired.status .mie) = (false, false, false) := by
  obtain ⟨fuel, hfuel⟩ := hreturn
  obtain ⟨exit, hloop, hexit⟩ := Outcome.bind_eq_done_iff.mp hfuel
  cases hexit
  obtain ⟨spinner, hturn⟩ := exists_exit_of_loop hloop
  unfold spinTurn at hturn
  by_cases hkey : spinner.key = 0
  · rw [if_pos hkey] at hturn
    cases hturn
    exact ⟨hkey, execCsr_archEi_mie _, enables_execCsr_archDi _⟩
  · rw [if_neg hkey] at hturn
    cases hturn

/-- A key that is free is taken at the first attempt. -/
theorem spinlockAcquireRiscv_of_free (others : ℕ → Word → Word) (status : Csrs) :
    Returns (spinlockAcquireRiscv others status 0)
      ⟨execCsr archEi (execCsr archDi status), 1, 0⟩ :=
  ⟨1, rfl⟩

/-- Taking and releasing the lock keeps the interrupt enables exactly for a caller that had
the global enable set and every single one clear. -/
theorem spinlock_sameEnables_iff
    (hreturn : Returns (spinlockAcquireRiscv others status key) acquired) :
    (acquired.taken = 0 ∧ status.SameEnables (spinlockReleaseRiscv acquired).status) ↔
      (status .mstatus).getLsbD mieBit = true ∧ enables (status .mie) = (false, false, false) := by
  obtain ⟨htaken, hmie, henables⟩ := spinlockAcquireRiscv_returns hreturn
  constructor
  · rintro ⟨_, hsame, hsame'⟩
    exact ⟨hsame.symm.trans hmie, hsame'.symm.trans henables⟩
  · rintro ⟨hbefore, hbefore'⟩
    exact ⟨htaken, hmie.trans hbefore.symm, henables.trans hbefore'.symm⟩

/-- Interrupts enabled globally, and none of them singly. -/
def noSingleEnable : Csrs
  | .mstatus => 0x8
  | _ => 0

theorem spinlock_sameEnables_noSingleEnable : ∃ acquired,
    Returns (spinlockAcquireRiscv (fun _ key => key) noSingleEnable 0) acquired ∧
      acquired.taken = 0 ∧ noSingleEnable.SameEnables (spinlockReleaseRiscv acquired).status := by
  have hreturn := spinlockAcquireRiscv_of_free (fun _ key => key) noSingleEnable
  exact ⟨_, hreturn, (spinlock_sameEnables_iff hreturn).mpr ⟨by decide, by decide⟩⟩

/-- Interrupts enabled globally and singly. -/
def allEnabled : Csrs
  | .mstatus => 0x8
  | .mie => 0x888
  | _ => 0

/-- A free lock, taken and released with everything enabled, leaves every machine
interrupt disabled. -/
theorem not_spinlock_sameEnables :
    ¬ ∀ others status key acquired, Returns (spinlockAcquireRiscv others status key) acquired →
      acquired.taken = 0 ∧ status.SameEnables (spinlockReleaseRiscv acquired).status := by
  intro hclaim
  have hsame := (hclaim _ _ _ _
    (spinlockAcquireRiscv_of_free (fun _ key => key) allEnabled)).2.2
  revert hsame
  decide

end Cyancore.Locks
