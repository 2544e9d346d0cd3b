/-
# Interleavings of threads

Several threads run the same program over one shared store.  A thread moves by one
access to the store at a time, and any thread may move next.  What holds of the
threads throughout every run is proved without looking at runs: each assertion about
one thread, or about two of them, has to survive the moves of the threads it speaks
about and those of all others.
-/

import Cyancore.Math.Transition
import Mathlib.Logic.Function.Basic

namespace Cyancore.Math

universe u v w x

/-- A shared store and the private state of every thread. -/
structure Pool (tid : Type u) (σ : Type v) (loc : Type w) where
  /-- What all threads can see. -/
  shared : σ
  /-- What belongs to one thread. -/
  thread : tid → loc

namespace Pool

variable {tid : Type u} {σ : Type v} {loc : Type w} {χ : Type x} [DecidableEq tid]

/-- One move of one thread; the label names the thread and resolves what its program leaves
open. -/
def step (act : tid → χ → σ → loc → Option (σ × loc)) (label : tid × χ) (pool : Pool tid σ loc) :
    Option (Pool tid σ loc) :=
  (act label.1 label.2 pool.shared (pool.thread label.1)).map fun moved =>
    ⟨moved.1, Function.update pool.thread label.1 moved.2⟩

/-- All threads start alike, over a store that may be anything admitted. -/
def interleaving (init : σ → Prop) (start : loc) (act : tid → χ → σ → loc → Option (σ × loc)) :
    TransitionSystem (Pool tid σ loc) (tid × χ) :=
  .ofNext (fun pool => init pool.shared ∧ ∀ t, pool.thread t = start) (step act)

theorem step_eq_some_iff {act : tid → χ → σ → loc → Option (σ × loc)} {label : tid × χ}
    {pool pool' : Pool tid σ loc} :
    step act label pool = some pool' ↔
      ∃ shared moved, act label.1 label.2 pool.shared (pool.thread label.1) = some (shared, moved) ∧
        pool' = ⟨shared, Function.update pool.thread label.1 moved⟩ := by
  rw [step, Option.map_eq_some_iff, Prod.exists]
  simp only [@eq_comm _ pool']

/-- A step is a move of one thread, and the others stay where they are. -/
theorem step_moves {act : tid → χ → σ → loc → Option (σ × loc)} {t : tid} {c : χ}
    {pool pool' : Pool tid σ loc} (hstep : step act (t, c) pool = some pool') :
    act t c pool.shared (pool.thread t) = some (pool'.shared, pool'.thread t) ∧
      ∀ q ≠ t, pool'.thread q = pool.thread q := by
  obtain ⟨shared, moved, hact, rfl⟩ := step_eq_some_iff.mp hstep
  constructor
  · simpa using hact
  · exact fun q hne => Function.update_of_ne hne _ _

/-- Assertions about one thread and about two that no move of any thread invalidates.  Thread
`t` moves; what is asserted of the threads involved may be used. -/
structure NonInterfering (act : tid → χ → σ → loc → Option (σ × loc))
    (guard : tid → χ → σ → loc → Prop) (own : σ → tid → loc → Prop)
    (pair : σ → tid → loc → tid → loc → Prop) : Prop where
  own_self : ∀ ⦃t c shared here shared' here'⦄, own shared t here → guard t c shared here →
    act t c shared here = some (shared', here') → own shared' t here'
  own_other : ∀ ⦃t c shared here shared' here' p l⦄, own shared t here → guard t c shared here →
    act t c shared here = some (shared', here') → p ≠ t → own shared p l →
    pair shared p l t here → own shared' p l
  pair_left : ∀ ⦃t c shared here shared' here' q k⦄, own shared t here → guard t c shared here →
    act t c shared here = some (shared', here') → q ≠ t → own shared q k →
    pair shared t here q k → pair shared' t here' q k
  pair_right : ∀ ⦃t c shared here shared' here' p l⦄, own shared t here → guard t c shared here →
    act t c shared here = some (shared', here') → p ≠ t → own shared p l →
    pair shared p l t here → pair shared' p l t here'
  pair_other : ∀ ⦃t c shared here shared' here' p l q k⦄, own shared t here →
    guard t c shared here → act t c shared here = some (shared', here') → p ≠ t → q ≠ t →
    pair shared p l q k → pair shared' p l q k

variable {act : tid → χ → σ → loc → Option (σ × loc)} {guard : tid → χ → σ → loc → Prop}
  {own : σ → tid → loc → Prop} {pair : σ → tid → loc → tid → loc → Prop}
  {init : σ → Prop} {start : loc} {pool pool' : Pool tid σ loc}

/-- The guard of a thread's own move, as a guard of the pool's step. -/
def localGuard (guard : tid → χ → σ → loc → Prop) (label : tid × χ) (pool : Pool tid σ loc) :
    Prop :=
  guard label.1 label.2 pool.shared (pool.thread label.1)

instance [∀ t c shared here, Decidable (guard t c shared here)] (label : tid × χ)
    (pool : Pool tid σ loc) : Decidable (localGuard guard label pool) :=
  inferInstanceAs (Decidable (guard label.1 label.2 pool.shared (pool.thread label.1)))

/-- The assertions about every thread and every two threads hold of the pool. -/
structure Asserts (own : σ → tid → loc → Prop) (pair : σ → tid → loc → tid → loc → Prop)
    (pool : Pool tid σ loc) : Prop where
  own : ∀ t, own pool.shared t (pool.thread t)
  pair : ∀ p q, p ≠ q → pair pool.shared p (pool.thread p) q (pool.thread q)

/-- A step keeps assertions that do not interfere. -/
theorem Asserts.step (hfree : NonInterfering act guard own pair) (hpool : Asserts own pair pool)
    {label : tid × χ} (hguard : localGuard guard label pool)
    (hstep : Pool.step act label pool = some pool') : Asserts own pair pool' := by
  obtain ⟨t, c⟩ := label
  obtain ⟨shared, here, hact, rfl⟩ := step_eq_some_iff.mp hstep
  constructor
  · intro p
    by_cases hp : p = t
    · subst hp
      simpa using hfree.own_self (hpool.own p) hguard hact
    · simpa [hp] using
        hfree.own_other (hpool.own t) hguard hact hp (hpool.own p) (hpool.pair p t hp)
  · intro p q hpq
    by_cases hp : p = t
    · subst hp
      have hq : q ≠ p := hpq.symm
      simpa [hq] using
        hfree.pair_left (hpool.own p) hguard hact hq (hpool.own q) (hpool.pair p q hpq)
    · by_cases hq : q = t
      · subst hq
        simpa [hp] using
          hfree.pair_right (hpool.own q) hguard hact hp (hpool.own p) (hpool.pair p q hpq)
      · simpa [hp, hq] using
          hfree.pair_other (hpool.own t) hguard hact hp hq (hpool.pair p q hpq)

/-- Assertions that do not interfere and hold at the start hold throughout every run. -/
theorem asserts_of_reachable (hfree : NonInterfering act guard own pair)
    (hown : ∀ shared, init shared → ∀ t, own shared t start)
    (hpair : ∀ shared, init shared → ∀ p q, p ≠ q → pair shared p start q start)
    (hreach : (interleaving init start act).Reachable (localGuard guard) pool) :
    Asserts own pair pool := by
  apply TransitionSystem.Reachable.invariant (Asserts own pair) _ _ hreach
  · rintro state ⟨hinit, hstart⟩
    constructor
    · intro t
      rw [hstart t]
      exact hown _ hinit t
    · intro p q hpq
      rw [hstart p, hstart q]
      exact hpair _ hinit p q hpq
  · intro label state state' hasserts hguard hstep
    exact hasserts.step hfree hguard hstep

end Pool

end Cyancore.Math
