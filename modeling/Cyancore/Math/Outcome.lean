/-
# Outcomes of fuelled loops

A piece of imperative code either returns, leaves its defined behaviour, or is
still going when the observer stops watching.  `Outcome` records which of the
three happened within a given amount of fuel.  The fuel is a device of the
observer and not of the program: a run that has settled stays settled when it
is watched for longer, so "the code returns `a`" is the existence of *some*
fuel, and "the code never returns" is the absence of any.

The module names no program.  It supplies the outcome monad, the fuelled
`while` loop, and the rules by which a loop is shown to return or to spin.
-/

import Mathlib.Tactic.Common

namespace Cyancore.Math

universe u v w x

/-- What was seen of a run within its fuel. -/
inductive Outcome (ε : Type u) (α : Type v)
  | /-- The code returned. -/
    done (value : α)
  | /-- The code left its defined behaviour. -/
    fault (error : ε)
  | /-- The code was still running when the fuel was spent. -/
    spin
  deriving DecidableEq, Repr

namespace Outcome

variable {ε : Type u} {α : Type v} {β : Type v}

/-- Continue with the returned value; a fault or an unfinished run absorbs what follows. -/
def bind (first : Outcome ε α) (rest : α → Outcome ε β) : Outcome ε β :=
  match first with
  | .done value => rest value
  | .fault error => .fault error
  | .spin => .spin

instance : Monad (Outcome ε) where
  pure := .done
  bind := Outcome.bind

@[simp]
theorem pure_eq (value : α) : (pure value : Outcome ε α) = .done value := rfl

@[simp]
theorem done_bind (value : α) (rest : α → Outcome ε β) :
    (Outcome.done value >>= rest) = rest value := rfl

@[simp]
theorem fault_bind (error : ε) (rest : α → Outcome ε β) :
    ((Outcome.fault error : Outcome ε α) >>= rest) = .fault error := rfl

@[simp]
theorem spin_bind (rest : α → Outcome ε β) :
    ((Outcome.spin : Outcome ε α) >>= rest) = .spin := rfl

theorem bind_assoc {γ : Type v} (first : Outcome ε α) (second : α → Outcome ε β)
    (third : β → Outcome ε γ) :
    (first >>= second) >>= third = first >>= fun value => second value >>= third := by
  cases first <;> rfl

/-- The same outcome, with its faults among those of a larger system. -/
def mapFault {ε' : Type w} (f : ε → ε') : Outcome ε α → Outcome ε' α
  | .done value => .done value
  | .fault error => .fault (f error)
  | .spin => .spin

@[simp]
theorem mapFault_eq_done_iff {ε' : Type w} {f : ε → ε'} {outcome : Outcome ε α} {value : α} :
    outcome.mapFault f = .done value ↔ outcome = .done value := by
  cases outcome <;> simp [mapFault]

/-- A composite returns exactly when its first part does and the rest does after it. -/
theorem bind_eq_done_iff {first : Outcome ε α} {rest : α → Outcome ε β} {result : β} :
    (first >>= rest) = .done result ↔
      ∃ value, first = .done value ∧ rest value = .done result := by
  cases first <;> simp

end Outcome

/-! ## Runs indexed by fuel -/

section Fuel

variable {ε : Type u} {α : Type v} {β : Type v}

/-- The run returns `result` once it is watched for long enough. -/
def Returns (run : ℕ → Outcome ε α) (result : α) : Prop :=
  ∃ fuel, run fuel = .done result

/-- The run is unfinished however long it is watched. -/
def Diverges (run : ℕ → Outcome ε α) : Prop :=
  ∀ fuel, run fuel = .spin

/-- More fuel never changes a run that has settled. -/
def FuelMono (run : ℕ → Outcome ε α) : Prop :=
  ∀ ⦃less more : ℕ⦄, less ≤ more → run less ≠ .spin → run more = run less

/-- Code that uses no fuel settles at once. -/
theorem fuelMono_const (outcome : Outcome ε α) : FuelMono fun _ => outcome :=
  fun _ _ _ _ => rfl

theorem FuelMono.bind {first : ℕ → Outcome ε α} {rest : ℕ → α → Outcome ε β}
    (hfirst : FuelMono first) (hrest : ∀ value, FuelMono fun fuel => rest fuel value) :
    FuelMono fun fuel => first fuel >>= rest fuel := by
  intro less more hle hsettled
  cases hvalue : first less with
  | spin => simp [hvalue] at hsettled
  | fault error =>
      have hmore := hfirst hle (by simp [hvalue])
      simp [hmore, hvalue]
  | done value =>
      have hmore := hfirst hle (by simp [hvalue])
      simp only [hmore, hvalue, Outcome.done_bind] at hsettled ⊢
      exact hrest value hle hsettled

/-- What is returned once is returned whenever the run is watched for long enough. -/
theorem Returns.eventually {run : ℕ → Outcome ε α} {result : α} (hresult : Returns run result)
    (hmono : FuelMono run) : ∃ enough, ∀ fuel, enough ≤ fuel → run fuel = .done result := by
  obtain ⟨enough, henough⟩ := hresult
  refine ⟨enough, fun fuel hle => ?_⟩
  rw [hmono hle (by simp [henough]), henough]

/-- A run has at most one result. -/
theorem Returns.unique {run : ℕ → Outcome ε α} (hmono : FuelMono run) {first second : α}
    (hfirst : Returns run first) (hsecond : Returns run second) : first = second := by
  obtain ⟨fuel, hfuel⟩ := hfirst
  obtain ⟨fuel', hfuel'⟩ := hsecond
  have hleft := hmono (Nat.le_max_left fuel fuel') (by simp [hfuel])
  have hright := hmono (Nat.le_max_right fuel fuel') (by simp [hfuel'])
  rw [hleft, hfuel, hfuel'] at hright
  exact Outcome.done.inj hright

theorem Diverges.not_returns {run : ℕ → Outcome ε α} (hspin : Diverges run) (result : α) :
    ¬ Returns run result := by
  rintro ⟨fuel, hfuel⟩
  simp [hspin fuel] at hfuel

@[simp]
theorem returns_done_iff {value result : α} :
    Returns (fun _ => (Outcome.done value : Outcome ε α)) result ↔ value = result := by
  simp [Returns]

/-- Code that uses no fuel returns what it returns. -/
theorem returns_const_iff {outcome : Outcome ε α} {result : α} :
    Returns (fun _ => outcome) result ↔ outcome = .done result := by
  simp [Returns]

/-- Sequencing: the composite returns exactly when both parts do. -/
theorem returns_bind_iff {first : ℕ → Outcome ε α} {rest : ℕ → α → Outcome ε β} {result : β}
    (hfirst : FuelMono first) (hrest : ∀ value, FuelMono fun fuel => rest fuel value) :
    Returns (fun fuel => first fuel >>= rest fuel) result ↔
      ∃ value, Returns first value ∧ Returns (fun fuel => rest fuel value) result := by
  constructor
  · rintro ⟨fuel, hfuel⟩
    obtain ⟨value, hvalue, hresult⟩ := Outcome.bind_eq_done_iff.mp hfuel
    exact ⟨value, ⟨fuel, hvalue⟩, ⟨fuel, hresult⟩⟩
  · rintro ⟨value, ⟨fuel, hvalue⟩, ⟨fuel', hresult⟩⟩
    refine ⟨max fuel fuel', Outcome.bind_eq_done_iff.mpr ⟨value, ?_, ?_⟩⟩
    · rw [hfirst (Nat.le_max_left fuel fuel') (by simp [hvalue]), hvalue]
    · exact (hrest value (Nat.le_max_right fuel fuel') (by simp [hresult])).trans hresult

/-- Post-processing a result changes no more than the result. -/
theorem returns_bind_done_iff {first : ℕ → Outcome ε α} {post : α → β} {result : β} :
    Returns (fun fuel => first fuel >>= fun value => .done (post value)) result ↔
      ∃ value, Returns first value ∧ post value = result := by
  constructor
  · rintro ⟨fuel, hfuel⟩
    obtain ⟨value, hvalue, hresult⟩ := Outcome.bind_eq_done_iff.mp hfuel
    exact ⟨value, ⟨fuel, hvalue⟩, Outcome.done.inj hresult⟩
  · rintro ⟨value, ⟨fuel, hvalue⟩, rfl⟩
    exact ⟨fuel, Outcome.bind_eq_done_iff.mpr ⟨value, hvalue, rfl⟩⟩

end Fuel

/-! ## The fuelled loop -/

/-- One turn of a loop body: go round again, or leave the loop. -/
inductive Turn (σ : Type u) (β : Type v)
  | next (state : σ)
  | exit (result : β)
  deriving DecidableEq, Repr

section Loop

variable {ε : Type u} {σ : Type v} {β : Type v}

/-- Turn the body over until it leaves the loop, for at most `fuel` turns. -/
def loop (body : σ → Outcome ε (Turn σ β)) : ℕ → σ → Outcome ε β
  | 0, _ => .spin
  | fuel + 1, state =>
      match body state with
      | .done (.exit result) => .done result
      | .done (.next state') => loop body fuel state'
      | .fault error => .fault error
      | .spin => .spin

variable {body : σ → Outcome ε (Turn σ β)}

theorem loop_succ_of_next {state state' : σ} (hturn : body state = .done (.next state'))
    (fuel : ℕ) : loop body (fuel + 1) state = loop body fuel state' := by
  rw [loop, hturn]

theorem fuelMono_loop (body : σ → Outcome ε (Turn σ β)) (state : σ) :
    FuelMono fun fuel => loop body fuel state := by
  intro less
  induction less generalizing state with
  | zero =>
      intro more _ hsettled
      exact absurd rfl hsettled
  | succ less ih =>
      intro more hle hsettled
      obtain ⟨more, rfl⟩ : ∃ k, more = k + 1 := ⟨more - 1, by omega⟩
      simp only [loop] at hsettled ⊢
      cases hturn : body state with
      | fault error => rfl
      | spin => rfl
      | done turn =>
          cases turn with
          | exit result => rfl
          | next state' =>
              simp only [hturn] at hsettled ⊢
              exact ih state' (by omega) hsettled

/-- A turn that goes round leaves the question to the next state. -/
theorem returns_loop_of_next {state state' : σ} {result : β}
    (hturn : body state = .done (.next state')) :
    Returns (fun fuel => loop body fuel state) result ↔
      Returns (fun fuel => loop body fuel state') result := by
  constructor
  · rintro ⟨fuel, hfuel⟩
    cases fuel with
    | zero => simp [loop] at hfuel
    | succ fuel => exact ⟨fuel, (loop_succ_of_next hturn fuel).symm.trans hfuel⟩
  · rintro ⟨fuel, hfuel⟩
    exact ⟨fuel + 1, (loop_succ_of_next hturn fuel).trans hfuel⟩

/-- A turn that leaves the loop gives its result. -/
theorem returns_loop_of_exit {state : σ} {value result : β}
    (hturn : body state = .done (.exit value)) :
    Returns (fun fuel => loop body fuel state) result ↔ value = result := by
  constructor
  · rintro ⟨fuel, hfuel⟩
    cases fuel with
    | zero => simp [loop] at hfuel
    | succ fuel => simpa [loop, hturn] using hfuel
  · rintro rfl
    exact ⟨1, by simp [loop, hturn]⟩

/-- A turn that faults stops the loop without a result. -/
theorem not_returns_loop_of_fault {state : σ} {error : ε} {result : β}
    (hturn : body state = .fault error) :
    ¬ Returns (fun fuel => loop body fuel state) result := by
  rintro ⟨fuel, hfuel⟩
  cases fuel with
  | zero => simp [loop] at hfuel
  | succ fuel => simp [loop, hturn] at hfuel

/-- A loop that returns has come through its first turn. -/
theorem exists_turn_of_returns_loop {state : σ} {result : β}
    (hloop : Returns (fun fuel => loop body fuel state) result) :
    ∃ turn, body state = .done turn := by
  obtain ⟨fuel, hfuel⟩ := hloop
  cases fuel with
  | zero => simp [loop] at hfuel
  | succ fuel =>
      cases hturn : body state with
      | done turn => exact ⟨turn, rfl⟩
      | fault error => simp [loop, hturn] at hfuel
      | spin => simp [loop, hturn] at hfuel

/-- A property that every turn keeps, and under which every turn goes round,
makes the loop spin for ever. -/
theorem diverges_loop {inv : σ → Prop}
    (hround : ∀ state, inv state → ∃ state', body state = .done (.next state') ∧ inv state')
    {state : σ} (hstate : inv state) : Diverges fun fuel => loop body fuel state := by
  intro fuel
  induction fuel generalizing state with
  | zero => rfl
  | succ fuel ih =>
      obtain ⟨state', hturn, hstate'⟩ := hround state hstate
      exact (loop_succ_of_next hturn fuel).trans (ih hstate')

/-- Partial correctness: what every turn keeps, and what holds at the exits,
holds of any result. -/
theorem loop_invariant {inv : σ → Prop} {post : β → Prop}
    (hnext : ∀ state state', inv state → body state = .done (.next state') → inv state')
    (hexit : ∀ state result, inv state → body state = .done (.exit result) → post result)
    {state : σ} (hstate : inv state) {fuel : ℕ} {result : β}
    (hloop : loop body fuel state = .done result) : post result := by
  induction fuel generalizing state with
  | zero => simp [loop] at hloop
  | succ fuel ih =>
      simp only [loop] at hloop
      cases hturn : body state with
      | fault error => simp [hturn] at hloop
      | spin => simp [hturn] at hloop
      | done turn =>
          cases turn with
          | exit value =>
              simp only [hturn, Outcome.done.injEq] at hloop
              exact hloop ▸ hexit state value hstate hturn
          | next state' =>
              simp only [hturn] at hloop
              exact ih (hnext state state' hstate hturn) hloop

/-- A result is what some turn left the loop with. -/
theorem exists_exit_of_loop {state : σ} {fuel : ℕ} {result : β}
    (hloop : loop body fuel state = .done result) :
    ∃ state', body state' = .done (.exit result) := by
  apply @loop_invariant _ _ _ body (fun _ => True) fun result =>
    ∃ state', body state' = .done (.exit result)
  · exact fun _ _ _ _ => trivial
  · exact fun state' _ _ hturn => ⟨state', hturn⟩
  · exact trivial
  · exact hloop

end Loop

end Cyancore.Math
