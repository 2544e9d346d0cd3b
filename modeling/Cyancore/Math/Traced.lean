/-
# Computations that leave a trace of states

Some properties of a program have to hold not only when a call returns but after every
store that it makes on the way, because something else is looking on: a device, another
context, a power failure.  A traced computation therefore yields, besides its outcome,
the states it passed through.  `Performs` relates it to a plan: the list of abstract moves
that its stores amount to, on which the property is then checked.

The module names no program.
-/

import Cyancore.Math.Outcome

namespace Cyancore.Math

universe u v

/-- What was seen of a computation: the states it passed through, in order, and its end. -/
structure Passage (ε : Type u) (σ α : Type v) where
  /-- The state after every recorded store, oldest first. -/
  trace : List σ
  /-- The returned value and the state on return, if the computation got there. -/
  outcome : Outcome ε (α × σ)

/-- A computation on a state that records what it passes through. -/
def Traced (ε : Type u) (σ α : Type v) := σ → Passage ε σ α

namespace Traced

variable {ε : Type u} {σ α β : Type v}

/-- Return at once. -/
def pure (value : α) : Traced ε σ α := fun state => ⟨[], .done (value, state)⟩

/-- Run one computation after the other; one that does not return absorbs what follows. -/
def bind (first : Traced ε σ α) (rest : α → Traced ε σ β) : Traced ε σ β := fun state =>
  match (first state).outcome with
  | .done (value, state') =>
      ⟨(first state).trace ++ (rest value state').trace, (rest value state').outcome⟩
  | .fault error => ⟨(first state).trace, .fault error⟩
  | .spin => ⟨(first state).trace, .spin⟩

instance : Monad (Traced ε σ) where
  pure := Traced.pure
  bind := Traced.bind

/-- Read something off the state. -/
def read (f : σ → α) : Traced ε σ α := fun state => ⟨[], .done (f state, state)⟩

/-- A store that is recorded. -/
def store (f : σ → σ) : Traced ε σ PUnit := fun state => ⟨[f state], .done (⟨⟩, f state)⟩

/-- A change of state that no one can observe. -/
def modify (f : σ → σ) : Traced ε σ PUnit := fun state => ⟨[], .done (⟨⟩, f state)⟩

/-- Leave the defined behaviour. -/
def abort (error : ε) : Traced ε σ α := fun _ => ⟨[], .fault error⟩

/-- Wait for a condition that never comes about. -/
def hang : Traced ε σ α := fun _ => ⟨[], .spin⟩

end Traced

/-! ## Walks

An abstract view of the state changes by moves.  A walk is what a list of moves leads
through; a computation performs the list if its trace, seen through the view, is that
walk, cut short only where the computation ends without returning. -/

section Walk

variable {τ μ : Type*} {act : μ → τ → τ} {inv : τ → Prop}

/-- What the moves lead through, after the start. -/
def walk (act : μ → τ → τ) : List μ → τ → List τ
  | [], _ => []
  | move :: moves, place => act move place :: walk act moves (act move place)

/-- Where the moves lead to. -/
def arrive (act : μ → τ → τ) (moves : List μ) (place : τ) : τ :=
  moves.foldl (fun place move => act move place) place

/-- Every place after the start satisfies `inv`. -/
def Along (inv : τ → Prop) (act : μ → τ → τ) : List μ → τ → Prop
  | [], _ => True
  | move :: moves, place => inv (act move place) ∧ Along inv act moves (act move place)

theorem along_iff {moves : List μ} {place : τ} :
    Along inv act moves place ↔ ∀ place' ∈ walk act moves place, inv place' := by
  induction moves generalizing place with
  | nil => simp [Along, walk]
  | cons move moves ih => simp [Along, walk, ih]

theorem walk_append (moves moves' : List μ) (place : τ) :
    walk act (moves ++ moves') place =
      walk act moves place ++ walk act moves' (arrive act moves place) := by
  induction moves generalizing place with
  | nil => rfl
  | cons move moves ih =>
      rw [List.cons_append, walk, walk, ih, List.cons_append]
      rfl

theorem arrive_append (moves moves' : List μ) (place : τ) :
    arrive act (moves ++ moves') place = arrive act moves' (arrive act moves place) :=
  List.foldl_append

theorem along_append {moves moves' : List μ} {place : τ} :
    Along inv act (moves ++ moves') place ↔
      Along inv act moves place ∧ Along inv act moves' (arrive act moves place) := by
  simp [along_iff, walk_append, or_imp, forall_and]

/-- What holds at the start and along the way holds on arrival. -/
theorem Along.arrive {moves : List μ} {place : τ} (halong : Along inv act moves place)
    (hstart : inv place) : inv (arrive act moves place) := by
  induction moves generalizing place with
  | nil => exact hstart
  | cons move moves ih => exact ih halong.2 halong.1

end Walk

namespace Traced

variable {ε : Type u} {σ α β : Type v} {τ μ : Type*}

/-- From `state` the computation goes along the moves, as far as it gets, and a return
means that it made them all. -/
structure Performs (view : σ → τ) (act : μ → τ → τ) (moves : List μ) (code : Traced ε σ α)
    (state : σ) : Prop where
  /-- The trace starts the walk. -/
  starts : (code state).trace.map view <+: walk act moves (view state)
  /-- A return ends it. -/
  ends : ∀ value state', (code state).outcome = .done (value, state') →
    (code state).trace.map view = walk act moves (view state) ∧
      view state' = arrive act moves (view state)

namespace Performs

variable {view : σ → τ} {act : μ → τ → τ} {moves moves' : List μ} {inv : τ → Prop}
  {code : Traced ε σ α} {state state' : σ}

/-- What holds along the walk holds of every state passed through. -/
theorem trace (hcode : Performs view act moves code state)
    (halong : Along inv act moves (view state)) (hmem : state' ∈ (code state).trace) :
    inv (view state') :=
  along_iff.mp halong _ (hcode.starts.subset (List.mem_map_of_mem hmem))

/-- What holds at the start and along the walk holds on return. -/
theorem outcome {value : α} (hcode : Performs view act moves code state)
    (halong : Along inv act moves (view state)) (hstart : inv (view state))
    (hdone : (code state).outcome = .done (value, state')) : inv (view state') := by
  rw [(hcode.ends value state' hdone).2]
  exact halong.arrive hstart

theorem pure (value : α) (state : σ) :
    Performs view act [] (Pure.pure value : Traced ε σ α) state := by
  constructor
  · exact List.nil_prefix
  · intro value' state' hdone
    cases hdone
    exact ⟨rfl, rfl⟩

theorem read (f : σ → α) (state : σ) :
    Performs view act [] (Traced.read f : Traced ε σ α) state := by
  constructor
  · exact List.nil_prefix
  · intro value' state' hdone
    cases hdone
    exact ⟨rfl, rfl⟩

/-- What is read is the state's own. -/
theorem ofRead {f : σ → β} {rest : β → Traced ε σ α}
    (hrest : Performs view act moves (rest (f state)) state) :
    Performs view act moves (Traced.read f >>= rest) state :=
  ⟨hrest.starts, hrest.ends⟩

/-- A change that the view does not show is no move. -/
theorem modify {f : σ → σ} (hview : view (f state) = view state) :
    Performs view act [] (Traced.modify f : Traced ε σ PUnit) state := by
  constructor
  · exact List.nil_prefix
  · intro value' state' hdone
    cases hdone
    exact ⟨rfl, hview⟩

theorem store {f : σ → σ} {move : μ} (hview : view (f state) = act move (view state)) :
    Performs view act [move] (Traced.store f : Traced ε σ PUnit) state := by
  have htrace : ((Traced.store f : Traced ε σ PUnit) state).trace.map view =
      walk act [move] (view state) := by
    change [view (f state)] = [act move (view state)]
    rw [hview]
  constructor
  · exact ⟨[], (List.append_nil _).trans htrace⟩
  · intro value' state' hdone
    cases hdone
    exact ⟨htrace, hview⟩

/-- Code that does not return may be said to perform anything. -/
theorem abort (error : ε) (state : σ) :
    Performs view act moves (Traced.abort error : Traced ε σ α) state := by
  constructor
  · exact List.nil_prefix
  · intro value' state' hdone
    cases hdone

theorem hang (state : σ) : Performs view act moves (Traced.hang : Traced ε σ α) state := by
  constructor
  · exact List.nil_prefix
  · intro value' state' hdone
    cases hdone

theorem bind {first : Traced ε σ β} {rest : β → Traced ε σ α}
    (hfirst : Performs view act moves first state)
    (hrest : ∀ value state', Performs view act moves' (rest value) state') :
    Performs view act (moves ++ moves') (first >>= rest) state := by
  change Performs view act (moves ++ moves') (Traced.bind first rest) state
  have hstarts := hfirst.starts.trans
    (List.prefix_append _ (walk act moves' (arrive act moves (view state))))
  rw [← walk_append] at hstarts
  cases hend : (first state).outcome with
  | done result =>
      obtain ⟨value, middle⟩ := result
      have hnext := hrest value middle
      have hmiddle := hfirst.ends value middle hend
      constructor
      · simp only [Traced.bind, hend, List.map_append, hmiddle.1, walk_append, ← hmiddle.2]
        exact (List.prefix_append_right_inj _).mpr hnext.starts
      · intro value' state' hdone
        simp only [Traced.bind, hend] at hdone
        have hlast := hnext.ends value' state' hdone
        simp only [Traced.bind, hend, List.map_append, hmiddle.1, walk_append, arrive_append,
          ← hmiddle.2]
        exact ⟨by rw [hlast.1], hlast.2⟩
  | fault error =>
      constructor
      · simpa only [Traced.bind, hend] using hstarts
      · intro value' state' hdone
        simp only [Traced.bind, hend] at hdone
        cases hdone
  | spin =>
      constructor
      · simpa only [Traced.bind, hend] using hstarts
      · intro value' state' hdone
        simp only [Traced.bind, hend] at hdone
        cases hdone

/-- One move, then the rest. -/
theorem cons {move : μ} {first : Traced ε σ β} {rest : β → Traced ε σ α}
    (hfirst : Performs view act [move] first state)
    (hrest : ∀ value state', Performs view act moves (rest value) state') :
    Performs view act (move :: moves) (first >>= rest) state :=
  hfirst.bind hrest

/-- No move, then the rest. -/
theorem skip {first : Traced ε σ β} {rest : β → Traced ε σ α}
    (hfirst : Performs view act [] first state)
    (hrest : ∀ value state', Performs view act moves (rest value) state') :
    Performs view act moves (first >>= rest) state :=
  hfirst.bind hrest

end Performs

/-! ## Frames and returns -/

/-- No state that the computation passes through shows a change. -/
def Still (view : σ → τ) (code : Traced ε σ α) (state : σ) : Prop :=
  ∀ state' ∈ (code state).trace, view state' = view state

/-- Whatever becomes of the computation, it leaves the view as it was. -/
structure Keeps (view : σ → τ) (code : Traced ε σ α) (state : σ) : Prop where
  still : Still view code state
  outcome : ∀ value state', (code state).outcome = .done (value, state') →
    view state' = view state

namespace Keeps

variable {view : σ → τ} {state : σ}

theorem pure (value : α) (state : σ) : Keeps view (Pure.pure value : Traced ε σ α) state := by
  constructor
  · intro state' hmem
    cases hmem
  · intro value' state' hdone
    cases hdone
    rfl

theorem read (f : σ → α) (state : σ) : Keeps view (Traced.read f : Traced ε σ α) state := by
  constructor
  · intro state' hmem
    cases hmem
  · intro value' state' hdone
    cases hdone
    rfl

theorem store {f : σ → σ} (hview : view (f state) = view state) :
    Keeps view (Traced.store f : Traced ε σ PUnit) state := by
  constructor
  · intro state' hmem
    rw [List.mem_singleton.mp hmem]
    exact hview
  · intro value' state' hdone
    cases hdone
    exact hview

theorem modify {f : σ → σ} (hview : view (f state) = view state) :
    Keeps view (Traced.modify f : Traced ε σ PUnit) state := by
  constructor
  · intro state' hmem
    cases hmem
  · intro value' state' hdone
    cases hdone
    exact hview

theorem abort (error : ε) (state : σ) :
    Keeps view (Traced.abort error : Traced ε σ α) state := by
  constructor
  · intro state' hmem
    cases hmem
  · intro value' state' hdone
    cases hdone

theorem hang (state : σ) : Keeps view (Traced.hang : Traced ε σ α) state := by
  constructor
  · intro state' hmem
    cases hmem
  · intro value' state' hdone
    cases hdone

end Keeps

/-- What follows a computation that returns is seen after it. -/
theorem bind_of_done {first : Traced ε σ β} {rest : β → Traced ε σ α} {state middle : σ}
    {value : β} (hdone : (first state).outcome = .done (value, middle)) :
    ((first >>= rest) state).trace = (first state).trace ++ (rest value middle).trace ∧
      ((first >>= rest) state).outcome = (rest value middle).outcome := by
  change (Traced.bind first rest state).trace = _ ∧ (Traced.bind first rest state).outcome = _
  simp only [Traced.bind, hdone]
  exact ⟨trivial, trivial⟩

/-- Nothing follows one that does not. -/
theorem bind_of_not_done {first : Traced ε σ β} {rest : β → Traced ε σ α} {state : σ}
    (hdone : ∀ value middle, (first state).outcome ≠ .done (value, middle)) :
    ((first >>= rest) state).trace = (first state).trace ∧
      ∀ value state', ((first >>= rest) state).outcome ≠ .done (value, state') := by
  change (Traced.bind first rest state).trace = _ ∧
    ∀ value state', (Traced.bind first rest state).outcome ≠ .done (value, state')
  cases hend : (first state).outcome with
  | done result => exact absurd hend (hdone result.1 result.2)
  | fault error => simp [Traced.bind, hend]
  | spin => simp [Traced.bind, hend]

theorem outcome_bind_of_fault {first : Traced ε σ β} {rest : β → Traced ε σ α} {state : σ}
    {error : ε} (hfault : (first state).outcome = .fault error) :
    ((first >>= rest) state).outcome = .fault error := by
  change (Traced.bind first rest state).outcome = .fault error
  simp only [Traced.bind, hfault]

theorem outcome_bind_of_spin {first : Traced ε σ β} {rest : β → Traced ε σ α} {state : σ}
    (hspin : (first state).outcome = .spin) : ((first >>= rest) state).outcome = .spin := by
  change (Traced.bind first rest state).outcome = .spin
  simp only [Traced.bind, hspin]

namespace Keeps

variable {view : σ → τ} {first : Traced ε σ β} {rest : β → Traced ε σ α} {state : σ}

theorem still_bind (hfirst : Keeps view first state)
    (hrest : ∀ value middle, Still view (rest value) middle) :
    Still view (first >>= rest) state := by
  intro state' hmem
  by_cases hdone : ∃ result, (first state).outcome = .done result
  · obtain ⟨⟨value, middle⟩, hdone⟩ := hdone
    rw [(bind_of_done hdone).1, List.mem_append] at hmem
    cases hmem with
    | inl hmem => exact hfirst.still state' hmem
    | inr hmem => exact (hrest value middle state' hmem).trans (hfirst.outcome value middle hdone)
  · rw [(bind_of_not_done fun value middle hend => hdone ⟨(value, middle), hend⟩).1] at hmem
    exact hfirst.still state' hmem

theorem bind (hfirst : Keeps view first state)
    (hrest : ∀ value middle, Keeps view (rest value) middle) :
    Keeps view (first >>= rest) state := by
  constructor
  · exact hfirst.still_bind fun value middle => (hrest value middle).still
  · intro value' state' hend
    by_cases hdone : ∃ result, (first state).outcome = .done result
    · obtain ⟨⟨value, middle⟩, hdone⟩ := hdone
      rw [(bind_of_done hdone).2] at hend
      exact ((hrest value middle).outcome value' state' hend).trans
        (hfirst.outcome value middle hdone)
    · have hnone : ∀ value middle, (first state).outcome ≠ .done (value, middle) :=
        fun value middle hend => hdone ⟨(value, middle), hend⟩
      exact absurd hend ((bind_of_not_done hnone).2 value' state')

end Keeps

/-- Seen through the view, a return has made this change. -/
def Changes (view : σ → τ) (change : τ → τ) (code : Traced ε σ α) : Prop :=
  ∀ state value state', (code state).outcome = .done (value, state') →
    view state' = change (view state)

namespace Changes

variable {view : σ → τ} {change change' : τ → τ}

theorem pure (value : α) : Changes view id (Pure.pure value : Traced ε σ α) := by
  intro state value' state' hdone
  cases hdone
  rfl

theorem read (f : σ → α) : Changes view id (Traced.read f : Traced ε σ α) := by
  intro state value state' hdone
  cases hdone
  rfl

theorem store {f : σ → σ} (hview : ∀ state, view (f state) = change (view state)) :
    Changes view change (Traced.store f : Traced ε σ PUnit) := by
  intro state value state' hdone
  cases hdone
  exact hview state

theorem modify {f : σ → σ} (hview : ∀ state, view (f state) = change (view state)) :
    Changes view change (Traced.modify f : Traced ε σ PUnit) := by
  intro state value state' hdone
  cases hdone
  exact hview state

/-- Code that does not return may be said to make any change. -/
theorem abort (error : ε) : Changes view change (Traced.abort error : Traced ε σ α) := by
  intro state value state' hdone
  cases hdone

theorem hang : Changes view change (Traced.hang : Traced ε σ α) := by
  intro state value state' hdone
  cases hdone

theorem bind {first : Traced ε σ β} {rest : β → Traced ε σ α} (hfirst : Changes view change first)
    (hrest : ∀ value, Changes view change' (rest value)) :
    Changes view (change' ∘ change) (first >>= rest) := by
  intro state value' state' hend
  by_cases hdone : ∃ result, (first state).outcome = .done result
  · obtain ⟨⟨value, middle⟩, hdone⟩ := hdone
    rw [(bind_of_done hdone).2] at hend
    rw [hrest value middle value' state' hend, hfirst state value middle hdone, Function.comp]
  · have hnone : ∀ value middle, (first state).outcome ≠ .done (value, middle) :=
      fun value middle hend => hdone ⟨(value, middle), hend⟩
    exact absurd hend ((bind_of_not_done hnone).2 value' state')

/-- No change, then the rest. -/
theorem skip {first : Traced ε σ β} {rest : β → Traced ε σ α} (hfirst : Changes view id first)
    (hrest : ∀ value, Changes view change (rest value)) : Changes view change (first >>= rest) :=
  hfirst.bind hrest

/-- The change, and no other after it. -/
theorem last {first : Traced ε σ β} {rest : β → Traced ε σ α} (hfirst : Changes view change first)
    (hrest : ∀ value, Changes view id (rest value)) : Changes view change (first >>= rest) :=
  hfirst.bind hrest

end Changes

/-- The computation returns `value`, in a state of which `post` holds. -/
def Returns (code : Traced ε σ α) (state : σ) (value : α) (post : σ → Prop) : Prop :=
  ∃ state', (code state).outcome = .done (value, state') ∧ post state'

namespace Returns

variable {state : σ} {value : α} {post : σ → Prop}

theorem pure (value : α) (hpost : post state) :
    Returns (Pure.pure value : Traced ε σ α) state value post :=
  ⟨state, rfl, hpost⟩

theorem store {f : σ → σ} (hpost : post (f state)) :
    Returns (Traced.store f : Traced ε σ PUnit) state ⟨⟩ post :=
  ⟨f state, rfl, hpost⟩

theorem modify {f : σ → σ} (hpost : post (f state)) :
    Returns (Traced.modify f : Traced ε σ PUnit) state ⟨⟩ post :=
  ⟨f state, rfl, hpost⟩

/-- What is read is the state's own. -/
theorem ofRead {f : σ → β} {rest : β → Traced ε σ α}
    (hrest : Returns (rest (f state)) state value post) :
    Returns (Traced.read f >>= rest) state value post :=
  hrest

variable {first : Traced ε σ β} {rest : β → Traced ε σ α} {middle : β} {mid : σ → Prop}

/-- What becomes of the rest becomes of the whole. -/
theorem outcome_bind {outcome : Outcome ε (α × σ)} (hfirst : Returns first state middle mid)
    (hrest : ∀ state', mid state' → (rest middle state').outcome = outcome) :
    ((first >>= rest) state).outcome = outcome := by
  obtain ⟨between, hdone, hmid⟩ := hfirst
  exact (bind_of_done hdone).2.trans (hrest between hmid)

theorem bind (hfirst : Returns first state middle mid)
    (hrest : ∀ state', mid state' → Returns (rest middle) state' value post) :
    Returns (first >>= rest) state value post := by
  obtain ⟨between, hdone, hmid⟩ := hfirst
  obtain ⟨state', hend, hpost⟩ := hrest between hmid
  exact ⟨state', (bind_of_done hdone).2.trans hend, hpost⟩

end Returns

end Traced

end Cyancore.Math
