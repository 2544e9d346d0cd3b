/-
# The bakery lock serves in the order of arrival

A core that starts `bakerylock_acquire` after another has stored its ticket sees that
ticket and draws a larger one.  So whatever the cores do in between, the later core
does not hold the lock before the earlier one has released it.
-/

import Cyancore.Locks.BakeryExclusion

namespace Cyancore.Locks

open Cyancore.Math

variable {n : ℕ} {key key' : Bakerylock n} {p q tid : Fin n} {side : Side}
  {here here' : Phase n} {pool pool' : BakeryPool n}

/-- The core has stored a ticket and has not released the lock since. -/
theorem BakeryMove.ticketed (hmove : BakeryMove tid key here key' here') (hticket : here.Ticketed)
    (hkeep : here ≠ .holding) : here'.Ticketed ∧ key'.threadCount = key.threadCount := by
  cases hmove with
  | enter | look | draw => exact hticket.elim
  | release => exact absurd rfl hkeep
  | skip i h | passOther i _ h | passOwn i _ h => exact ⟨Phase.ticketed_advance i, rfl⟩
  | _ => exact ⟨trivial, rfl⟩

/-- Core `p` has a ticket, and core `q` either has none or comes later. -/
structure Follows (p q : Fin n) (pool : BakeryPool n) : Prop where
  ticketed : (pool.thread p).Ticketed
  clears : Clears pool.shared p (pool.thread q) (pool.shared.rank p < pool.shared.rank q)

/-- The order of two cores is about their own fields only. -/
theorem Bakerylock.rank_lt_congr (hp : key'.threadCount p = key.threadCount p)
    (hq : key'.threadCount q = key.threadCount q) :
    key'.rank p < key'.rank q ↔ key.rank p < key.rank q := by
  rw [rank_lt_iff, rank_lt_iff, hp, hq]

/-- Whoever moves, core `q` stays behind core `p` until that one releases the lock. -/
theorem Follows.step (hfollows : Follows p q pool) (hne : p ≠ q)
    (hfits : TicketFits tid side pool.shared (pool.thread tid))
    (hkeep : tid = p → pool.thread p ≠ .holding)
    (hstep : Pool.step bakeryAct (tid, side) pool = some pool') : Follows p q pool' := by
  obtain ⟨key, here, hact, rfl⟩ := Pool.step_eq_some_iff.mp hstep
  have hmove := BakeryMove.of_act hact
  obtain ⟨hticket, hclears⟩ := hfollows
  by_cases hp : tid = p
  · subst hp
    obtain ⟨hstill, hsame⟩ := hmove.ticketed hticket (hkeep rfl)
    constructor
    · simpa using hstill
    · simp only [Function.update_of_ne hne.symm]
      refine ⟨fun i nMax heq hlt => ?_, fun h => ?_⟩
      · rw [hsame]
        exact hclears.seen i nMax heq hlt
      · exact (Bakerylock.rank_lt_congr (congrFun hsame _) (congrFun hsame _)).mpr
          (hclears.order h)
  · have hframe := (hmove.frame (Ne.symm hp)).1
    constructor
    · simpa [Ne.symm hp] using hticket
    · by_cases hq : tid = q
      · subst hq
        simp only [Function.update_self]
        apply hclears.move hne hfits hmove
        · intro hsame horder
          exact (Bakerylock.rank_lt_congr (congrFun hsame _) (congrFun hsame _)).mpr horder
        · intro hlt
          exact Bakerylock.rank_lt_iff.mpr (.inl hlt)
      · simp only [Function.update_of_ne (Ne.symm hq)]
        refine ⟨fun i nMax heq hlt => ?_, fun h => ?_⟩
        · rw [hframe]
          exact hclears.seen i nMax heq hlt
        · exact (Bakerylock.rank_lt_congr hframe (hmove.frame (Ne.symm hq)).1).mpr
            (hclears.order h)

/-- A core that has not started to draw a ticket is behind every core that has one. -/
theorem Follows.of_idle (hticket : (pool.thread p).Ticketed) (hidle : pool.thread q = .idle) :
    Follows p q pool := by
  refine ⟨hticket, fun i nMax heq => ?_, fun h => ?_⟩
  · rw [hidle] at heq
    cases heq
  · rw [hidle] at h
    exact h.elim

/-- A core that holds the lock comes before every other core with a ticket. -/
theorem rank_lt_of_holding
    (hreach : (bakerySystem n).Reachable (Pool.localGuard TicketFits) pool) (hne : q ≠ p)
    (hq : pool.thread q = .holding) (hticket : (pool.thread p).Ticketed) :
    pool.shared.rank q < pool.shared.rank p := by
  have hpair := (asserts_of_bakery hreach).pair q p hne
  rw [hq] at hpair
  exact (hpair.passed trivial).order hticket

/-- A core behind another one does not hold the lock. -/
theorem Follows.not_holding (hfollows : Follows p q pool) (hne : p ≠ q)
    (hreach : (bakerySystem n).Reachable (Pool.localGuard TicketFits) pool) :
    pool.thread q ≠ .holding := by
  intro hholds
  have hbefore := hfollows.clears.order (by rw [hholds]; trivial)
  exact lt_asymm hbefore (rank_lt_of_holding hreach hne.symm hholds hfollows.ticketed)

/-- No ticket is truncated, and core `p` does not release the lock. -/
def KeepsLock (p tid : Fin n) (side : Side) (key : Bakerylock n) (here : Phase n) : Prop :=
  TicketFits tid side key here ∧ (tid = p → here ≠ .holding)

instance (p tid : Fin n) (side : Side) (key : Bakerylock n) (here : Phase n) :
    Decidable (KeepsLock p tid side key here) :=
  inferInstanceAs (Decidable (_ ∧ (_ → ¬ _)))

/-- From a state in which `p` has stored its ticket and `q` has not started, `q` does not get the
lock in any run in which `p` does not release it. -/
theorem bakerylock_serves_in_order {before after : BakeryPool n}
    (hbefore : (bakerySystem n).Reachable (Pool.localGuard TicketFits) before)
    (hp : (before.thread p).Ticketed) (hq : before.thread q = .idle)
    (hafter : (TransitionSystem.ofNext (· = before) (Pool.step bakeryAct)).Reachable
      (Pool.localGuard (KeepsLock p)) after) : after.thread q ≠ .holding := by
  have hne : p ≠ q := by
    rintro rfl
    rw [hq] at hp
    exact hp
  have hreach := hbefore.resume hafter fun _ _ hguard => hguard.1
  have hfollows : Follows p q after := by
    apply TransitionSystem.Reachable.invariant (Follows p q) _ _ hafter
    · rintro pool rfl
      exact .of_idle hp hq
    · rintro ⟨tid, side⟩ pool pool' hfollows ⟨hfits, hkeep⟩ hstep
      exact hfollows.step hne hfits (fun h => h ▸ hkeep h) hstep
  exact hfollows.not_holding hne hreach

/-- Core 0 draws its ticket; then core 1 starts and draws one as well, and core 0 goes on until it
holds the lock. -/
theorem bakerylock_serves_in_order_two : ∃ before after : BakeryPool 2,
    (before.thread 0).Ticketed ∧ before.thread 1 = .idle ∧ after.thread 0 = .holding ∧
      (after.thread 1).Ticketed ∧ after.thread 1 ≠ .holding := by
  have hstart : (bakerySystem 2).Reachable (Pool.localGuard TicketFits) (bakeryIdle 2) :=
    .start ⟨rfl, fun _ => rfl⟩
  let arrive : List (Fin 2 × Side) := [0, 0, 0, 0].map fun core => (core, .other)
  let goOn : List (Fin 2 × Side) :=
    [1, 1, 1, 1, 1, 0, 0, 0, 0, 0, 0, 0, 0, 0, 0, 0, 0, 0, 1].map fun core => (core, .own)
  let served := fun pool : BakeryPool 2 =>
    decide (pool.thread 0 = .holding ∧ pool.thread 1 = .testTicket 0)
  have htest : (TransitionSystem.replay (Pool.step bakeryAct) (Pool.localGuard TicketFits) arrive
      (bakeryIdle 2)).any (fun before =>
        decide (before.thread 0 = .leaveDoorway ∧ before.thread 1 = .idle) &&
          (TransitionSystem.replay (Pool.step bakeryAct) (Pool.localGuard (KeepsLock 0)) goOn
            before).any served) = true := by
    decide
  obtain ⟨before, hbefore, hpools⟩ := hstart.exists_replay htest
  obtain ⟨hpool, hlater⟩ := Bool.and_eq_true_iff.mp hpools
  obtain ⟨harrived, hidle⟩ := of_decide_eq_true hpool
  have hresume : (TransitionSystem.ofNext (· = before) (Pool.step bakeryAct)).Reachable
      (Pool.localGuard (KeepsLock 0)) before := .start rfl
  obtain ⟨after, hafter, hserved⟩ := hresume.exists_replay hlater
  obtain ⟨hholds, hwaits⟩ := of_decide_eq_true hserved
  have hticket : (before.thread 0).Ticketed := harrived ▸ trivial
  exact ⟨before, after, hticket, hidle, hholds, hwaits ▸ trivial,
    bakerylock_serves_in_order hbefore hticket hidle hafter⟩

end Cyancore.Locks
