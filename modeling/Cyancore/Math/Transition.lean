/-
# Guarded runs of a transition system

A system starts in an initial state and moves by labelled steps.  Callers are
often trusted with a discipline, so runs are taken relative to a guard: a
condition on the label and on the state *before* the step.  A claim about every
run is a claim about every state that guarded steps can reach.
-/

import Mathlib.Tactic.TypeStar

namespace Cyancore.Math

universe u v

/-- Initial states and labelled steps. -/
structure TransitionSystem (σ : Type u) (lbl : Type v) where
  /-- Where runs start. -/
  init : σ → Prop
  /-- What one labelled step may do. -/
  step : lbl → σ → σ → Prop

namespace TransitionSystem

variable {σ : Type u} {lbl : Type v} {system : TransitionSystem σ lbl}
  {guard guard' : lbl → σ → Prop}

/-- The states reached by finitely many steps, each of which met the guard. -/
inductive Reachable (system : TransitionSystem σ lbl) (guard : lbl → σ → Prop) : σ → Prop
  | /-- Runs start in an initial state. -/
    start {state : σ} (hinit : system.init state) : Reachable system guard state
  | /-- A guarded step from a reached state reaches its target. -/
    step {label : lbl} {state state' : σ} (hreach : Reachable system guard state)
      (hguard : guard label state) (hstep : system.step label state state') :
      Reachable system guard state'

/-- What holds initially and survives every guarded step holds throughout every run. -/
theorem Reachable.invariant (inv : σ → Prop) (hinit : ∀ state, system.init state → inv state)
    (hstep : ∀ label state state', inv state → guard label state →
      system.step label state state' → inv state')
    {state : σ} (hreach : Reachable system guard state) : inv state := by
  induction hreach with
  | start h => exact hinit _ h
  | step _ hguard hmove ih => exact hstep _ _ _ ih hguard hmove

/-- A run that meets one guard meets every guard that follows from it in reached states. -/
theorem Reachable.reguard
    (hguard : ∀ label state, Reachable system guard state → guard label state → guard' label state)
    {state : σ} (hreach : Reachable system guard state) : Reachable system guard' state := by
  induction hreach with
  | start h => exact .start h
  | step hbefore h hmove ih => exact ih.step (hguard _ _ hbefore h) hmove

/-- The listed labels lead from a start to a state. -/
inductive Leads (system : TransitionSystem σ lbl) (start : σ) : List lbl → σ → Prop
  | /-- No label leads nowhere else. -/
    nil : Leads system start [] start
  | /-- One more step at the end. -/
    snoc {labels : List lbl} {label : lbl} {state state' : σ}
      (hleads : Leads system start labels state)
      (hstep : system.step label state state') : Leads system start (labels ++ [label]) state'

/-! ## Systems that compute their steps -/

/-- The system whose steps are computed; a label that does not apply gives no state. -/
def ofNext (init : σ → Prop) (next : lbl → σ → Option σ) : TransitionSystem σ lbl where
  init := init
  step label state state' := next label state = some state'

/-- Take the listed steps, as long as they apply and meet the guard. -/
def replay (next : lbl → σ → Option σ) (guard : lbl → σ → Prop)
    [∀ label state, Decidable (guard label state)] : List lbl → σ → Option σ
  | [], state => some state
  | label :: labels, state =>
      if guard label state then (next label state).bind (replay next guard labels) else none

variable {init : σ → Prop} {next : lbl → σ → Option σ}

/-- A run that goes on from a reached state, under a guard that may ask for more. -/
theorem Reachable.resume {state state' : σ} (hreach : Reachable (ofNext init next) guard state)
    (hlater : Reachable (ofNext (· = state) next) guard' state')
    (hguard : ∀ label state, guard' label state → guard label state) :
    Reachable (ofNext init next) guard state' := by
  induction hlater with
  | start h => exact h ▸ hreach
  | step _ h hmove ih => exact ih.step (hguard _ _ h) hmove

/-- Take the listed steps, as long as they apply. -/
def run (next : lbl → σ → Option σ) (labels : List lbl) (state : σ) : Option σ :=
  labels.foldlM (fun state label => next label state) state

@[simp]
theorem run_nil (state : σ) : run next [] state = some state := rfl

@[simp]
theorem run_cons (label : lbl) (labels : List lbl) (state : σ) :
    run next (label :: labels) state = (next label state).bind (run next labels) := rfl

/-- One more step at the end. -/
theorem run_append_singleton (labels : List lbl) (label : lbl) (state : σ) :
    run next (labels ++ [label]) state = (run next labels state).bind (next label) := by
  induction labels generalizing state with
  | nil => exact Option.bind_some _ _ ▸ Option.bind_fun_some _
  | cons first labels ih =>
      rw [List.cons_append, run_cons, run_cons, Option.bind_assoc]
      exact congrArg _ (funext ih)

/-- A run each of whose steps meets the guard ends in a reached state. -/
theorem Reachable.run {labels : List lbl} {state state' : σ}
    (hreach : Reachable (ofNext init next) guard state)
    (hrun : run next labels state = some state')
    (hguard : ∀ before label, before ++ [label] <+: labels → ∀ middle,
      TransitionSystem.run next before state = some middle → guard label middle) :
    Reachable (ofNext init next) guard state' := by
  induction labels generalizing state with
  | nil =>
      rw [run_nil, Option.some.injEq] at hrun
      exact hrun ▸ hreach
  | cons label labels ih =>
      rw [run_cons] at hrun
      obtain ⟨middle, hmiddle, hrest⟩ := Option.bind_eq_some_iff.mp hrun
      have hfirst : guard label state :=
        hguard [] label (List.cons_prefix_cons.mpr ⟨rfl, List.nil_prefix⟩) state rfl
      refine ih (hreach.step hfirst hmiddle) hrest fun before later hprefix last hlast => ?_
      refine hguard (label :: before) later (List.cons_prefix_cons.mpr ⟨rfl, hprefix⟩) last ?_
      rw [run_cons, hmiddle]
      exact hlast

variable [∀ label state, Decidable (guard label state)]

/-- What a replay ends in is reached. -/
theorem Reachable.replay {labels : List lbl} {state state' : σ}
    (hreach : Reachable (ofNext init next) guard state)
    (hreplay : replay next guard labels state = some state') :
    Reachable (ofNext init next) guard state' := by
  induction labels generalizing state with
  | nil =>
      rw [TransitionSystem.replay, Option.some.injEq] at hreplay
      exact hreplay ▸ hreach
  | cons label labels ih =>
      rw [TransitionSystem.replay] at hreplay
      split at hreplay
      · rename_i hguard
        obtain ⟨middle, hmiddle, hrest⟩ := Option.bind_eq_some_iff.mp hreplay
        exact ih (hreach.step hguard hmiddle) hrest
      · cases hreplay

/-- A replay whose end passes a test shows that such a state is reached. -/
theorem Reachable.exists_replay {labels : List lbl} {state : σ} {test : σ → Bool}
    (hreach : Reachable (ofNext init next) guard state)
    (htest : (TransitionSystem.replay next guard labels state).any test = true) :
    ∃ state', Reachable (ofNext init next) guard state' ∧ test state' = true := by
  obtain ⟨state', hreplay, hstate⟩ := (Option.any_eq_true _ _).mp htest
  exact ⟨state', hreach.replay hreplay, hstate⟩

end TransitionSystem

end Cyancore.Math
