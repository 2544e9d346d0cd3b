/-
# Infinite runs

An infinite run makes a guarded step or rests at every time.  What a run owes to
progress is shown with two rules.  What no step ends holds from then on.  And if a
measure never grows while a condition lasts, and every helpful step lowers it, the
condition ends: helpful steps come again and again, and a measure can be lowered only
finitely often.
-/

import Cyancore.Math.Interleaving
import Mathlib.Data.Nat.Init
import Mathlib.Order.OrderIsoNat
import Mathlib.Tactic.ByContra

namespace Cyancore.Math

universe u v

variable {σ : Type u} {lbl : Type v}

/-- A run without an end, which may also rest. -/
structure InfiniteRun (system : TransitionSystem σ lbl) (guard : lbl → σ → Prop) where
  /-- The state at each time. -/
  state : ℕ → σ
  /-- What is done at each time, if anything. -/
  label : ℕ → Option lbl
  init : system.init (state 0)
  rest : ∀ time, label time = none → state (time + 1) = state time
  guarded : ∀ time l, label time = some l → guard l (state time)
  move : ∀ time l, label time = some l → system.step l (state time) (state (time + 1))

namespace InfiniteRun

variable {system : TransitionSystem σ lbl} {guard : lbl → σ → Prop}
  (run : InfiniteRun system guard)

theorem reachable (time : ℕ) : system.Reachable guard (run.state time) := by
  induction time with
  | zero => exact .start run.init
  | succ time ih =>
      cases hlabel : run.label time with
      | none => exact run.rest time hlabel ▸ ih
      | some l => exact ih.step (run.guarded time l hlabel) (run.move time l hlabel)

/-- What no step ends and what holds at one time holds from then on. -/
theorem stays (holds : σ → Prop) {start : ℕ} (hstart : holds (run.state start))
    (hmove : ∀ time ≥ start, ∀ l, run.label time = some l → holds (run.state time) →
      holds (run.state (time + 1))) :
    ∀ time ≥ start, holds (run.state time) := by
  intro time htime
  induction time, htime using Nat.le_induction with
  | base => exact hstart
  | succ time htime ih =>
      cases hlabel : run.label time with
      | none => exact run.rest time hlabel ▸ ih
      | some l => exact hmove time htime l hlabel ih

/-- A condition that lasts ends at a step, if helpful steps come again and again while it lasts
and lower a measure that nothing raises. -/
theorem exists_last (stay : σ → Prop) (measure : σ → ℕ) (helpful : lbl → Prop) {start : ℕ}
    (hstart : stay (run.state start))
    (hoften : ∀ time ≥ start, stay (run.state time) →
      ∃ later ≥ time, ∃ l, run.label later = some l ∧ helpful l)
    (hmeasure : ∀ time ≥ start, ∀ l, run.label time = some l → stay (run.state time) →
      stay (run.state (time + 1)) →
        measure (run.state (time + 1)) ≤ measure (run.state time) ∧
          (helpful l → measure (run.state (time + 1)) < measure (run.state time))) :
    ∃ time ≥ start, stay (run.state time) ∧ ¬ stay (run.state (time + 1)) := by
  by_contra hlasts
  push Not at hlasts
  have hstay : ∀ time ≥ start, stay (run.state time) :=
    Nat.le_induction hstart fun time htime ih => hlasts time htime ih
  have hanti : ∀ before ≥ start, ∀ time ≥ before,
      measure (run.state time) ≤ measure (run.state before) := by
    intro before hbefore
    have hkeep : ∀ time ≥ before, ∀ l, run.label time = some l →
        measure (run.state time) ≤ measure (run.state before) →
          measure (run.state (time + 1)) ≤ measure (run.state before) := by
      intro time htime l hlabel ih
      have hfrom := Nat.le_trans hbefore htime
      exact Nat.le_trans (hmeasure time hfrom l hlabel (hstay _ hfrom) (hstay _ (by omega))).1 ih
    exact run.stays (fun state => measure state ≤ measure (run.state before)) (Nat.le_refl _) hkeep
  -- each helpful step lowers the measure for good
  have hlow : ∀ bound, ∃ time ≥ start, measure (run.state time) + bound ≤
      measure (run.state start) := by
    intro bound
    induction bound with
    | zero => exact ⟨start, Nat.le_refl _, Nat.le_refl _⟩
    | succ bound ih =>
        obtain ⟨time, htime, hbound⟩ := ih
        obtain ⟨later, hlater, l, hlabel, hhelps⟩ := hoften time htime (hstay time htime)
        have hfrom := Nat.le_trans htime hlater
        have hless := (hmeasure later hfrom l hlabel (hstay _ hfrom) (hstay _ (by omega))).2 hhelps
        have hbefore := hanti time htime later hlater
        exact ⟨later + 1, by omega, by omega⟩
  obtain ⟨time, -, hbound⟩ := hlow (measure (run.state start) + 1)
  omega

/-- The step with which a condition ends. -/
theorem exists_step (stay : σ → Prop) {time : ℕ} (hstay : stay (run.state time))
    (hleaves : ¬ stay (run.state (time + 1))) :
    ∃ l, run.label time = some l ∧ system.step l (run.state time) (run.state (time + 1)) := by
  cases hlabel : run.label time with
  | none => exact absurd (run.rest time hlabel ▸ hstay) hleaves
  | some l => exact ⟨l, rfl, run.move time l hlabel⟩

/-- A condition ends if any helpful step ends it and they come again and again while it lasts. -/
theorem exists_leaving (stay : σ → Prop) (helpful : lbl → Prop) {start : ℕ}
    (hstart : stay (run.state start))
    (hoften : ∀ time ≥ start, stay (run.state time) →
      ∃ later ≥ time, ∃ l, run.label later = some l ∧ helpful l)
    (hhelps : ∀ time ≥ start, ∀ l, run.label time = some l → stay (run.state time) → helpful l →
      ¬ stay (run.state (time + 1))) :
    ∃ time ≥ start, stay (run.state time) ∧ ¬ stay (run.state (time + 1)) ∧
      ∃ l, run.label time = some l ∧ system.step l (run.state time) (run.state (time + 1)) := by
  obtain ⟨time, htime, hstay, hleaves⟩ := run.exists_last stay (fun _ => 0) helpful hstart hoften
    fun time htime l hlabel hstay hnext =>
      ⟨Nat.le_refl 0, fun hhelpful => absurd hnext (hhelps time htime l hlabel hstay hhelpful)⟩
  exact ⟨time, htime, hstay, hleaves, run.exists_step stay hstay hleaves⟩

/-- What never grows is constant from some time on. -/
theorem exists_const (measure : σ → ℕ)
    (hmeasure : ∀ time l, run.label time = some l →
      measure (run.state (time + 1)) ≤ measure (run.state time)) :
    ∃ start, ∀ time ≥ start, measure (run.state time) = measure (run.state start) := by
  have hanti : Antitone fun time => measure (run.state time) := by
    refine antitone_nat_of_succ_le fun time => ?_
    cases hlabel : run.label time with
    | none => rw [run.rest time hlabel]
    | some l => exact hmeasure time l hlabel
  obtain ⟨start, hstart⟩ := WellFoundedGT.monotone_chain_condition
    (⟨fun time => OrderDual.toDual (measure (run.state time)), hanti.dual_right⟩ : ℕ →o ℕᵒᵈ)
  exact ⟨start, fun time htime => (congrArg OrderDual.ofDual (hstart time htime)).symm⟩

/-! ## Runs of a pool -/

section Threads

universe w x

variable {tid : Type u} {τ : Type v} {loc : Type w} {χ : Type x} [DecidableEq tid]
  {start : τ → Prop} {idle : loc} {act : tid → χ → τ → loc → Option (τ × loc)}
  {guard : tid × χ → Pool tid τ loc → Prop}
  {run : InfiniteRun (Pool.interleaving start idle act) guard} {t : tid} {time : ℕ}

/-- A thread stays where it is while others move. -/
theorem thread_of_other (hother : ∀ c, run.label time ≠ some (t, c)) :
    (run.state (time + 1)).thread t = (run.state time).thread t := by
  cases hlabel : run.label time with
  | none => rw [run.rest time hlabel]
  | some l =>
      refine (Pool.step_moves (run.move time l hlabel)).2 t ?_
      rintro rfl
      exact hother l.2 hlabel

/-- What a thread does when it is its turn. -/
theorem act_of_label {c : χ} (hlabel : run.label time = some (t, c)) :
    act t c (run.state time).shared ((run.state time).thread t) =
      some ((run.state (time + 1)).shared, (run.state (time + 1)).thread t) :=
  (Pool.step_moves (run.move time _ hlabel)).1

end Threads

/-! ## Finite runs, continued by resting -/

section OfReplay

variable {init : σ → Prop} {next : lbl → σ → Option σ}
  [∀ label state, Decidable (guard label state)]

theorem replay_append (first rest : List lbl) (start : σ) :
    TransitionSystem.replay next guard (first ++ rest) start =
      (TransitionSystem.replay next guard first start).bind
        (TransitionSystem.replay next guard rest) := by
  induction first generalizing start with
  | nil => rfl
  | cons l first ih =>
      rw [List.cons_append, TransitionSystem.replay, TransitionSystem.replay]
      split
      · rw [Option.bind_assoc]
        exact congrArg _ (funext ih)
      · rfl

/-- What a replay has reached after its first steps. -/
def replayed (next : lbl → σ → Option σ) (guard : lbl → σ → Prop)
    [∀ label state, Decidable (guard label state)] (labels : List lbl) (start : σ) (time : ℕ) : σ :=
  (TransitionSystem.replay next guard (labels.take time) start).getD start

/-- Once the listed steps are taken, nothing changes. -/
theorem replayed_of_length_le {labels : List lbl} {start : σ} {time : ℕ}
    (htime : labels.length ≤ time) :
    replayed next guard labels start time = replayed next guard labels start labels.length := by
  rw [replayed, replayed, List.take_of_length_le htime, List.take_length]

/-- The next step of a replay that comes to its end. -/
theorem replay_step {labels : List lbl} {start : σ} {time : ℕ} {l : lbl}
    (hreplay : (TransitionSystem.replay next guard labels start).isSome)
    (hlabel : labels[time]? = some l) :
    guard l (replayed next guard labels start time) ∧
      next l (replayed next guard labels start time) =
        some (replayed next guard labels start (time + 1)) := by
  obtain ⟨htime, rfl⟩ := List.getElem?_eq_some_iff.mp hlabel
  have htake : labels.take (time + 1) = labels.take time ++ [labels[time]] :=
    List.take_succ_eq_append_getElem htime
  have hall : labels = labels.take (time + 1) ++ labels.drop (time + 1) :=
    (List.take_append_drop _ _).symm
  rw [hall, replay_append, Option.isSome_bind] at hreplay
  simp only [replayed, htake, replay_append] at hreplay ⊢
  cases hreached : TransitionSystem.replay next guard (labels.take time) start with
  | none => simp [hreached] at hreplay
  | some state =>
      simp only [hreached, Option.bind_some, Option.getD_some, TransitionSystem.replay] at hreplay ⊢
      split at hreplay
      · rename_i hguard
        cases hnext : next labels[time] state with
        | none => simp [hnext] at hreplay
        | some state' => simp [hguard]
      · simp at hreplay

/-- Take the listed steps and rest from then on. -/
def ofReplay (labels : List lbl) (start : σ) (hinit : init start)
    (hreplay : (TransitionSystem.replay next guard labels start).isSome) :
    InfiniteRun (.ofNext init next) guard where
  state := replayed next guard labels start
  label time := labels[time]?
  init := hinit
  rest := by
    intro time hnone
    have hlength := List.getElem?_eq_none_iff.mp hnone
    rw [replayed_of_length_le hlength, replayed_of_length_le (Nat.le_succ_of_le hlength)]
  guarded := fun _ _ hlabel => (replay_step hreplay hlabel).1
  move := fun _ _ hlabel => (replay_step hreplay hlabel).2

end OfReplay

end InfiniteRun

end Cyancore.Math
