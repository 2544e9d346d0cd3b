/-
# What a despatch does before it starts a task

Between the reset of the current task and the mark on the next one, a despatch only
lets waiting tasks count down and resumes blocked ones.  The sweep of the wait list
and the searches of both algorithms are such wake-ups, whatever the lists look like,
so that a property of the state that a tick and a resumption keep is kept by them.
-/

import Cyancore.Helios.Frames

namespace Cyancore.Helios

open Cyancore.Math

variable {cfg : HeliosConfig} {state state' state'' : SchedState} {waitRes fuel : ℕ} {task : Addr}

/-! ## Wake-ups -/

@[simp]
theorem frame_tickWaiting : (tickWaiting cfg waitRes task state).frame = state.frame := by
  rw [tickWaiting]
  split
  · simp
  · simp

@[simp]
theorem status_tickWaiting : (tickWaiting cfg waitRes task state).status = state.status := by
  rw [tickWaiting]
  split
  · simp
  · simp

/-- Waiting tasks have counted down and blocked tasks have been resumed. -/
inductive Wakes (cfg : HeliosConfig) (state : SchedState) : SchedState → Prop
  | refl : Wakes cfg state state
  | tick {state' : SchedState} (hrest : Wakes cfg state state') (waitRes : ℕ) {task : Addr}
      (hwait : state'.status task = .wait) : Wakes cfg state (tickWaiting cfg waitRes task state')
  | resume {state' state'' : SchedState} (hrest : Wakes cfg state state') {task : Addr}
      (hrun : heliosSchedSendToResume (some task) state' = .done state'') : Wakes cfg state state''

namespace Wakes

theorem trans (hfirst : Wakes cfg state state') (hsecond : Wakes cfg state' state'') :
    Wakes cfg state state'' := by
  induction hsecond with
  | refl => exact hfirst
  | tick _ waitRes hwait ih => exact ih.tick waitRes hwait
  | resume _ hrun ih => exact ih.resume hrun

theorem frame (hwakes : Wakes cfg state state') : state'.frame = state.frame := by
  induction hwakes with
  | refl => rfl
  | tick _ waitRes hwait ih => exact frame_tickWaiting.trans ih
  | resume _ hrun ih => exact (frame_of_sendToResume hrun).1.trans ih

theorem of_resume {ptr : Option Addr} (hrun : heliosSchedSendToResume ptr state = .done state') :
    Wakes cfg state state' := by
  obtain ⟨task, hptr, -⟩ := Outcome.bind_eq_done_iff.mp hrun
  obtain rfl := eq_of_deref hptr
  exact refl.resume hrun

theorem of_wakeIfDue (hrun : wakeIfDue task state = .done state') : Wakes cfg state state' := by
  rw [wakeIfDue] at hrun
  split at hrun
  · exact of_resume hrun
  · exact Outcome.done.inj hrun ▸ refl

theorem of_resumeIdle {ptr : Option Addr} (hrun : resumeIdle ptr state = .done state') :
    Wakes cfg state state' := by
  rw [resumeIdle] at hrun
  split at hrun
  · exact of_resume hrun
  · exact Outcome.done.inj hrun ▸ refl

/-- A turn of the sweep wakes. -/
theorem of_sweepTurn {ptr : Option Addr} {turn : Turn (Option Addr × SchedState) SchedState}
    (hrun : sweepTurn cfg waitRes (ptr, state) = .done turn) :
    (∀ cursor, turn = .next cursor → Wakes cfg state cursor.2) ∧
      ∀ final, turn = .exit final → Wakes cfg state final := by
  cases ptr with
  | none =>
      obtain rfl := Outcome.done.inj hrun
      simp [refl]
  | some task =>
      rw [sweepTurn] at hrun
      by_cases hwait : state.status task = .wait
      · simp only [if_pos hwait] at hrun
        obtain ⟨woken, hwake, hrun⟩ := Outcome.bind_eq_done_iff.mp hrun
        have hwakes : Wakes cfg state woken :=
          (refl.tick waitRes hwait).trans (of_wakeIfDue hwake)
        split at hrun
        · obtain rfl := Outcome.done.inj hrun
          simp [hwakes]
        · obtain rfl := Outcome.done.inj hrun
          simp [hwakes]
      · simp only [if_neg hwait] at hrun
        obtain rfl := Outcome.done.inj hrun
        simp [refl]

/-- A turn of the priority search wakes. -/
theorem of_priorityTurn {ptr : Option Addr}
    {turn : Turn (Option Addr × SchedState) (Option Addr × SchedState)}
    (hrun : priorityTurn (ptr, state) = .done turn) :
    (∀ cursor, turn = .next cursor → Wakes cfg state cursor.2) ∧
      ∀ final, turn = .exit final → Wakes cfg state final.2 := by
  obtain ⟨task, -, hrun⟩ := Outcome.bind_eq_done_iff.mp hrun
  by_cases hready : state.status task = .ready
  · simp only [if_pos hready] at hrun
    obtain rfl := Outcome.done.inj hrun
    simp [refl]
  simp only [if_neg hready] at hrun
  split at hrun
  · obtain ⟨resumed, hresume, hrun⟩ := Outcome.bind_eq_done_iff.mp hrun
    obtain rfl := Outcome.done.inj hrun
    simp [of_resume hresume]
  · obtain rfl := Outcome.done.inj hrun
    simp [refl]

end Wakes

/-! ## The sweep and the algorithms -/

theorem wakes_waitListAdjustment
    (hrun : heliosSchedWaitListAdjustment cfg fuel state = .done state') :
    Wakes cfg state state' := by
  rw [heliosSchedWaitListAdjustment] at hrun
  split at hrun
  · exact Outcome.done.inj hrun ▸ .refl
  · refine @loop_invariant _ _ _ _ (fun cursor => Wakes cfg state cursor.2) (Wakes cfg state)
      ?_ ?_ _ .refl _ _ hrun
    · exact fun _ after hbefore hturn => hbefore.trans ((Wakes.of_sweepTurn hturn).1 after rfl)
    · exact fun _ after hbefore hturn => hbefore.trans ((Wakes.of_sweepTurn hturn).2 after rfl)

/-- Round robin wakes, and marks at most the task after the task after the current one. -/
theorem roundRobin_cases (cfg : HeliosConfig)
    (hrun : heliosSchedAlgoRoundRobinFn state = .done state') :
    ∃ resumed, Wakes cfg state resumed ∧
      (state' = resumed ∨ ∃ curr succ task, state.currTask = some curr ∧
        state.next .ready curr = some succ ∧ state.next .ready succ = some task ∧
        state' = resumed.setStatus task .running) := by
  rw [heliosSchedAlgoRoundRobinFn] at hrun
  obtain ⟨curr, hcurr, hrun⟩ := Outcome.bind_eq_done_iff.mp hrun
  obtain ⟨resumed, hresume, hrun⟩ := Outcome.bind_eq_done_iff.mp hrun
  obtain ⟨succ, hsucc, hrun⟩ := Outcome.bind_eq_done_iff.mp hrun
  have hwakes : Wakes cfg state resumed := .of_resumeIdle hresume
  refine ⟨resumed, hwakes, ?_⟩
  split at hrun
  · obtain ⟨task, htask, hrun⟩ := Outcome.bind_eq_done_iff.mp hrun
    obtain rfl := Outcome.done.inj hrun
    refine .inr ⟨curr, succ, task, eq_of_deref hcurr, eq_of_deref hsucc, ?_, rfl⟩
    rw [← SchedState.next_ready_of_frame hwakes.frame]
    exact eq_of_deref htask
  · exact .inl (Outcome.done.inj hrun).symm

/-- The priority search wakes, and marks at most one task. -/
theorem priorityDriven_cases (cfg : HeliosConfig)
    (hrun : heliosSchedAlgoPriorityDrivenFn fuel state = .done state') :
    ∃ searched, Wakes cfg state searched ∧
      (state' = searched ∨ ∃ task, state' = searched.setStatus task .running) := by
  rw [heliosSchedAlgoPriorityDrivenFn] at hrun
  obtain ⟨head, -, hrun⟩ := Outcome.bind_eq_done_iff.mp hrun
  dsimp only at hrun
  split at hrun
  · exact ⟨state, .refl, .inl (Outcome.done.inj hrun).symm⟩
  · obtain ⟨⟨ptr, searched⟩, hsearch, hrun⟩ := Outcome.bind_eq_done_iff.mp hrun
    obtain ⟨task, -, hrun⟩ := Outcome.bind_eq_done_iff.mp hrun
    refine ⟨searched, ?_, .inr ⟨task, (Outcome.done.inj hrun).symm⟩⟩
    refine @loop_invariant _ _ _ priorityTurn (fun cursor => Wakes cfg state cursor.2)
      (fun final => Wakes cfg state final.2) ?_ ?_ _ .refl _ _ hsearch
    · exact fun _ after hbefore hturn => hbefore.trans ((Wakes.of_priorityTurn hturn).1 after rfl)
    · exact fun _ after hbefore hturn => hbefore.trans ((Wakes.of_priorityTurn hturn).2 after rfl)

/-- Either algorithm wakes, and marks at most one task. -/
theorem runSelectedSched_cases (cfg : HeliosConfig)
    (hrun : runSelectedSched fuel state = .done state') :
    ∃ woken, Wakes cfg state woken ∧
      (state' = woken ∨ ∃ task, state' = woken.setStatus task .running) := by
  rw [runSelectedSched] at hrun
  split at hrun
  · obtain ⟨resumed, hwakes, hcases⟩ := roundRobin_cases cfg hrun
    refine ⟨resumed, hwakes, hcases.imp_right ?_⟩
    rintro ⟨curr, succ, task, -, -, -, hmarked⟩
    exact ⟨task, hmarked⟩
  · exact priorityDriven_cases cfg hrun
  · simp at hrun

end Cyancore.Helios
