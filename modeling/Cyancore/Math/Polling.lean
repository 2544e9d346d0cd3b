/-
# Polling

Code that looks at something again and again until it is ready is a loop whose state is the
number of the look.  It returns with the first look that is ready, and with nothing else.
-/

import Cyancore.Math.Outcome
import Mathlib.Data.Nat.Find

namespace Cyancore.Math

universe u

variable {ε : Type u} {β : Type} {ready : ℕ → Prop} [DecidablePred ready] {result : ℕ → β}

/-- One look. -/
def pollTurn (ready : ℕ → Prop) [DecidablePred ready] (result : ℕ → β) (look : ℕ) :
    Outcome ε (Turn ℕ β) :=
  .done (if ready look then .exit (result look) else .next (look + 1))

/-- Look until it is ready, from the look `start` on. -/
def poll (ready : ℕ → Prop) [DecidablePred ready] (result : ℕ → β) (fuel start : ℕ) :
    Outcome ε β :=
  loop (pollTurn ready result) fuel start

/-- The first look from `start` on that is ready. -/
structure FirstReady (ready : ℕ → Prop) (start look : ℕ) : Prop where
  le : start ≤ look
  now : ready look
  before : ∀ earlier, start ≤ earlier → earlier < look → ¬ ready earlier

theorem pollTurn_of_ready {look : ℕ} (hready : ready look) :
    (pollTurn ready result look : Outcome ε _) = .done (.exit (result look)) := by
  rw [pollTurn, if_pos hready]

theorem pollTurn_of_not_ready {look : ℕ} (hready : ¬ ready look) :
    (pollTurn ready result look : Outcome ε _) = .done (.next (look + 1)) := by
  rw [pollTurn, if_neg hready]

theorem returns_poll_of_firstReady {start look : ℕ} (hfirst : FirstReady ready start look) :
    Returns (fun fuel => (poll ready result fuel start : Outcome ε β)) (result look) := by
  obtain ⟨turns, rfl⟩ := Nat.exists_eq_add_of_le hfirst.le
  induction turns generalizing start with
  | zero => exact (returns_loop_of_exit (pollTurn_of_ready hfirst.now)).mpr rfl
  | succ turns ih =>
      have hnot : ¬ ready start := hfirst.before start (Nat.le_refl _) (by omega)
      have hrest : start + (turns + 1) = start + 1 + turns := by omega
      apply (returns_loop_of_next (pollTurn_of_not_ready hnot)).mpr
      rw [hrest] at hfirst ⊢
      exact ih ⟨by omega, hfirst.now, fun earlier hle hlt => hfirst.before earlier (by omega) hlt⟩

/-- Polling returns what the first ready look gives. -/
theorem returns_poll_iff {start : ℕ} {value : β} :
    Returns (fun fuel => (poll ready result fuel start : Outcome ε β)) value ↔
      ∃ look, FirstReady ready start look ∧ result look = value := by
  constructor
  · rintro ⟨fuel, hfuel⟩
    apply @loop_invariant _ _ _ (pollTurn ready result)
      (fun look => start ≤ look ∧ ∀ earlier, start ≤ earlier → earlier < look → ¬ ready earlier)
      (fun value => ∃ look, FirstReady ready start look ∧ result look = value) _ _ _
      ⟨Nat.le_refl _, fun earlier hle hlt => absurd hle (Nat.not_le.mpr hlt)⟩ _ _ hfuel
    · rintro look look' ⟨hle, hbefore⟩ hturn
      by_cases hready : ready look
      · rw [pollTurn_of_ready hready] at hturn
        cases hturn
      · rw [pollTurn_of_not_ready hready] at hturn
        cases hturn
        refine ⟨Nat.le_succ_of_le hle, fun earlier hstart hlt => ?_⟩
        rcases Nat.lt_succ_iff_lt_or_eq.mp hlt with hlt | rfl
        · exact hbefore earlier hstart hlt
        · exact hready
    · rintro look value ⟨hle, hbefore⟩ hturn
      by_cases hready : ready look
      · rw [pollTurn_of_ready hready] at hturn
        cases hturn
        exact ⟨look, ⟨hle, hready, hbefore⟩, rfl⟩
      · rw [pollTurn_of_not_ready hready] at hturn
        cases hturn
  · rintro ⟨look, hfirst, rfl⟩
    exact returns_poll_of_firstReady hfirst

/-- What is ready at some time is ready for the first time at some time. -/
theorem exists_firstReady {start look : ℕ} (hle : start ≤ look) (hready : ready look) :
    ∃ first, FirstReady ready start first := by
  have hexists : ∃ look, start ≤ look ∧ ready look := ⟨look, hle, hready⟩
  obtain ⟨hstart, hfirst⟩ := Nat.find_spec hexists
  exact ⟨Nat.find hexists, hstart, hfirst, fun earlier hle hlt hready =>
    Nat.find_min hexists hlt ⟨hle, hready⟩⟩

end Cyancore.Math
