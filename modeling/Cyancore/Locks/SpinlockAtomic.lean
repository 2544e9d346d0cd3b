/-
# The spinlock of the RISC-V port with atomics

`spinlock_acquire` reads the key until it is free and then swaps a one into it; the swap
is one access, and a core has the lock if it swapped a zero out.  Any number of cores
use one key; a core outside starts `spinlock_acquire`, and one that has returned from it
goes on to `spinlock_release`.
-/

import Cyancore.Arch.Riscv
import Cyancore.Math.InfiniteRun

namespace Cyancore.Locks

open Cyancore.Math Cyancore.Riscv

/-- The next access of a core to the key. -/
inductive AmoPhase
  | /-- Outside; next the first read of `*key`. -/
    outside
  | /-- The key was taken; next another read of it. -/
    test
  | /-- The key was read as zero; next `amoswap.w`. -/
    swap
  | /-- `spinlock_acquire` has returned; next `*key = 0`. -/
    holding
  deriving DecidableEq, Repr

/-- One access to the key in `spinlock_acquire` or `spinlock_release`. -/
def amoAct (key : Word) : AmoPhase → Word × AmoPhase
  | .outside | .test => if key = 0 then (key, .swap) else (key, .test)
  | .swap => (1, if key = 0 then .holding else .test)
  | .holding => (0, .outside)

/-- The key and what every core is doing. -/
abbrev AmoPool (n : ℕ) := Pool (Fin n) Word AmoPhase

/-- `n` cores on a key that is free. -/
def amoSystem (n : ℕ) : TransitionSystem (AmoPool n) (Fin n × Unit) :=
  Pool.interleaving (· = 0) .outside fun _ _ key phase => some (amoAct key phase)

variable {n : ℕ} {pool pool' : AmoPool n} {key : Word} {phase : AmoPhase}

/-- A core gets the lock only from a key that was free. -/
theorem amoAct_holding (h : (amoAct key phase).2 = .holding) :
    phase = .swap ∧ key = 0 ∧ (amoAct key phase).1 = 1 := by
  cases phase with
  | outside | test =>
      simp only [amoAct] at h
      split at h <;> cases h
  | swap =>
      simp only [amoAct] at h
      split at h
      · exact ⟨rfl, ‹_›, rfl⟩
      · cases h
  | holding => cases h

/-- Whoever does not have the lock leaves a key that is taken as it is taken. -/
theorem amoAct_ne_zero (hkey : key ≠ 0) (hphase : phase ≠ .holding) :
    (amoAct key phase).1 ≠ 0 := by
  cases phase with
  | outside | test => simpa only [amoAct, if_neg hkey] using hkey
  | swap => simp [amoAct]
  | holding => exact absurd rfl hphase

/-- A key that is free stays free unless someone gets the lock. -/
theorem amoAct_eq_zero (hkey : key = 0) (h : (amoAct key phase).2 ≠ .holding) :
    (amoAct key phase).1 = 0 := by
  cases phase with
  | outside | test => simpa only [amoAct, if_pos hkey] using hkey
  | swap => simp [amoAct, hkey] at h
  | holding => rfl

/-- The key is taken exactly while a core has the lock, and that core is the only one. -/
structure AmoOk (pool : AmoPool n) : Prop where
  taken : pool.shared ≠ 0 ↔ ∃ p, pool.thread p = .holding
  alone : ∀ p q, pool.thread p = .holding → pool.thread q = .holding → p = q

theorem AmoOk.step (hok : AmoOk pool) {p : Fin n} {c : Unit}
    (hstep : Pool.step (fun _ _ key phase => some (amoAct key phase)) (p, c) pool = some pool') :
    AmoOk pool' := by
  obtain ⟨shared, moved, hact, rfl⟩ := Pool.step_eq_some_iff.mp hstep
  have hpair : amoAct pool.shared (pool.thread p) = (shared, moved) := Option.some.inj hact
  have hshared : shared = (amoAct pool.shared (pool.thread p)).1 := by rw [hpair]
  have hmoved : moved = (amoAct pool.shared (pool.thread p)).2 := by rw [hpair]
  have hother : ∀ q ≠ p, Function.update pool.thread p moved q = pool.thread q :=
    fun q hne => Function.update_of_ne hne _ _
  by_cases hgets : moved = .holding
  · -- the key was free, so nobody else has the lock
    obtain ⟨-, hfree, hone⟩ := amoAct_holding (hmoved ▸ hgets)
    have hnobody : ∀ q, pool.thread q ≠ .holding :=
      fun q h => hok.taken.mpr ⟨q, h⟩ hfree
    have honly : ∀ q, Function.update pool.thread p moved q = .holding → q = p := by
      intro q h
      by_contra hne
      exact hnobody q (hother q hne ▸ h)
    refine ⟨⟨fun _ => ⟨p, by simpa using hgets⟩, fun _ => ?_⟩,
      fun q r hq hr => (honly q hq).trans (honly r hr).symm⟩
    simp only [hshared, hone]
    decide
  · have hstill : ∀ q, Function.update pool.thread p moved q = .holding ↔
        q ≠ p ∧ pool.thread q = .holding := by
      intro q
      by_cases hne : q = p
      · subst hne
        simp [hgets]
      · simp [hne]
    refine ⟨?_, fun q r hq hr => hok.alone q r ((hstill q).mp hq).2 ((hstill r).mp hr).2⟩
    simp only [hstill, hshared]
    by_cases hholds : pool.thread p = .holding
    · refine ⟨fun h => absurd ?_ h, fun ⟨q, hne, hq⟩ => absurd (hok.alone q p hq hholds) hne⟩
      rw [hholds]
      rfl
    · constructor
      · intro h
        have htaken : pool.shared ≠ 0 := fun hfree => h (amoAct_eq_zero hfree (hmoved ▸ hgets))
        obtain ⟨q, hq⟩ := hok.taken.mp htaken
        exact ⟨q, fun hne => hholds (hne ▸ hq), hq⟩
      · rintro ⟨q, -, hq⟩
        exact amoAct_ne_zero (hok.taken.mpr ⟨q, hq⟩) hholds

/-- In every interleaving of any number of cores at most one core has the lock, and the key is
taken exactly while one has it. -/
theorem spinlock_atomic_excludes {guard : Fin n × Unit → AmoPool n → Prop}
    (hreach : (amoSystem n).Reachable guard pool) : AmoOk pool := by
  apply TransitionSystem.Reachable.invariant AmoOk _ _ hreach
  · rintro state ⟨hfree, hstart⟩
    constructor
    · simp [hfree, hstart]
    · intro p q hp
      rw [hstart p] at hp
      cases hp
  · rintro ⟨p, c⟩ state state' hok - hstep
    exact hok.step hstep

/-- Core 0 has swapped a one into the key; core 1 swapped as well and found the one. -/
theorem spinlock_atomic_excludes_two : ∃ pool : AmoPool 2,
    pool.thread 0 = .holding ∧ pool.thread 1 = .test ∧ AmoOk pool := by
  let start : AmoPool 2 := ⟨0, fun _ => .outside⟩
  have hstart : (amoSystem 2).Reachable (fun _ _ => True) start := .start ⟨rfl, fun _ => rfl⟩
  have htest : (TransitionSystem.replay
      (Pool.step fun _ _ key phase => some (amoAct key phase)) (fun _ _ => True)
      [(0, ()), (1, ()), (0, ()), (1, ())] start).any (fun pool : AmoPool 2 =>
        decide (pool.thread 0 = .holding ∧ pool.thread 1 = .test)) = true := by
    decide
  obtain ⟨pool, hreach, hpool⟩ := hstart.exists_replay htest
  obtain ⟨hholds, hwaits⟩ := of_decide_eq_true hpool
  exact ⟨pool, hholds, hwaits, spinlock_atomic_excludes hreach⟩

end Cyancore.Locks
