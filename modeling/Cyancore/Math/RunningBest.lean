/-
# Scans that keep the best so far

A scan looks at candidates one after the other and keeps one of them, or what it started
with; it changes over only for a candidate that costs strictly less.  What it ends with is
then among what it has seen, and nothing it has seen costs less.

`KeepsBest` says this of any piece of a scan.  Pieces compose, and so nested loops with
filters are taken apart along their text.
-/

import Mathlib.Data.Set.Basic
import Mathlib.Order.Defs.LinearOrder

namespace Cyancore.Math

universe u v w

variable {σ : Type u} {κ : Type v} {α : Type w} [LinearOrder κ] {cost : σ → κ}

/-- The scan of the candidates goes from `start` to `final`. -/
structure KeepsBest (cost : σ → κ) (candidates : Set σ) (start final : σ) : Prop where
  origin : final = start ∨ final ∈ candidates
  le_start : cost final ≤ cost start
  le : ∀ candidate ∈ candidates, cost final ≤ cost candidate

namespace KeepsBest

variable {candidates first second : Set σ} {start middle final : σ}

/-- Nothing to look at. -/
theorem empty (start : σ) : KeepsBest cost ∅ start start :=
  ⟨.inl rfl, le_rfl, fun _ h => h.elim⟩

/-- One candidate. -/
theorem single (candidate start : σ) :
    KeepsBest cost {candidate} start
      (if cost candidate < cost start then candidate else start) := by
  split
  case isTrue hlt => exact ⟨.inr rfl, hlt.le, fun _ h => h ▸ le_rfl⟩
  case isFalse hle => exact ⟨.inl rfl, le_rfl, fun _ h => h ▸ not_lt.mp hle⟩

/-- One scan after the other. -/
theorem trans (hfirst : KeepsBest cost first start middle)
    (hsecond : KeepsBest cost second middle final) :
    KeepsBest cost (first ∪ second) start final where
  origin := by
    rcases hsecond.origin with rfl | hmem
    · exact hfirst.origin.imp_right .inl
    · exact .inr (.inr hmem)
  le_start := hsecond.le_start.trans hfirst.le_start
  le := by
    rintro candidate (hmem | hmem)
    · exact hsecond.le_start.trans (hfirst.le candidate hmem)
    · exact hsecond.le candidate hmem

/-- A scan that a test may skip. -/
theorem skip {skipped : Prop} [Decidable skipped] (hscan : KeepsBest cost candidates start final) :
    KeepsBest cost {candidate | ¬ skipped ∧ candidate ∈ candidates} start
      (if skipped then start else final) := by
  split
  case isTrue hskip => exact ⟨.inl rfl, le_rfl, fun _ h => absurd hskip h.1⟩
  case isFalse hskip =>
    exact ⟨hscan.origin.imp_right fun h => ⟨hskip, h⟩, hscan.le_start, fun _ h => hscan.le _ h.2⟩

/-- A loop whose every turn scans. -/
theorem foldl {step : σ → α → σ} {offers : α → Set σ}
    (hstep : ∀ state a, KeepsBest cost (offers a) state (step state a)) (l : List α) (start : σ) :
    KeepsBest cost {candidate | ∃ a ∈ l, candidate ∈ offers a} start (l.foldl step start) := by
  induction l generalizing start with
  | nil => simpa using empty start
  | cons a l ih =>
      have hcons : {candidate | ∃ b ∈ a :: l, candidate ∈ offers b} =
          offers a ∪ {candidate | ∃ b ∈ l, candidate ∈ offers b} := by
        ext candidate
        simp
      rw [hcons]
      exact (hstep start a).trans (ih (step start a))

/-- A candidate that costs less than the start forces a change. -/
theorem mem_of_lt (hscan : KeepsBest cost candidates start final) {candidate : σ}
    (hmem : candidate ∈ candidates) (hlt : cost candidate < cost start) : final ∈ candidates := by
  apply hscan.origin.resolve_left
  rintro rfl
  exact absurd (hscan.le candidate hmem) hlt.not_ge

end KeepsBest

end Cyancore.Math
