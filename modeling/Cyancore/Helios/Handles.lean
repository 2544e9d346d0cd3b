/-
# Task handles

`__helios_get_tcb_using_task_id` walks the ready list and stops when the next task is
the head of the list, before it has compared the id of the task it stands on.  It
therefore finds every task but the last.  The functions that take a handle inherit
this: a handle of the last task is unknown to `helios_resume_task` and
`helios_get_task_name`, and stands for the current task in `helios_del_task` and
`helios_pause_task`.
-/

import Cyancore.Helios.Boot

namespace Cyancore.Helios

open Cyancore.Math

variable {cfg : HeliosConfig} {state : SchedState} {queue : List Addr} {task : Addr}

/-! ## The search -/

/-- The search is a search of all but the last task. -/
theorem returns_lookupLoop (taskId : ℕ) {nodes : List Addr} (hwalk : ReadyWalk state nodes) :
    Returns (fun fuel => loop (lookupTurn taskId state) fuel nodes.head?)
      (nodes.dropLast.find? fun task => decide (state.taskId task = taskId)) := by
  induction nodes with
  | nil => exact hwalk.elim
  | cons first rest ih =>
      cases rest with
      | nil =>
          have hturn : lookupTurn taskId state (some first) = .done (.exit none) := by
            simp [lookupTurn, show state.next .ready first = state.readyListHead from hwalk]
          exact (returns_loop_of_exit hturn).mpr rfl
      | cons succ rest =>
          obtain ⟨hnext, hne, hwalk⟩ := hwalk
          by_cases hid : state.taskId first = taskId
          · have hturn : lookupTurn taskId state (some first) = .done (.exit (some first)) := by
              simp [lookupTurn, hnext, hne, show (state.tcb first).taskId = taskId from hid]
            exact (returns_loop_of_exit hturn).mpr (by simp [hid])
          · have hturn : lookupTurn taskId state (some first) = .done (.next (some succ)) := by
              simp [lookupTurn, hnext, hne, show (state.tcb first).taskId ≠ taskId from hid]
            refine (returns_loop_of_next hturn).mpr ?_
            simpa [hid] using ih hwalk

/-- A task followed by another is found by its id, if no other task has that id. -/
theorem returns_getTcb_of_next_ne (hlist : state.ListIs .ready queue) (htask : task ∈ queue)
    (hunique : ∀ other ∈ queue, state.taskId other = state.taskId task → other = task)
    (hnext : state.next .ready task ≠ state.readyListHead) :
    Returns (fun fuel => heliosGetTcbUsingTaskId fuel (state.taskId task) state) (some task) := by
  obtain ⟨front, back, rfl⟩ := List.append_of_mem htask
  have hback : back ≠ [] := by
    rintro rfl
    exact hnext (SchedState.ListIs.readyWalk_append front hlist (by simp))
  have hfind : (front ++ task :: back).dropLast.find?
      (fun other => decide (state.taskId other = state.taskId task)) = some task := by
    obtain ⟨succ, rest, rfl⟩ := List.exists_cons_of_ne_nil hback
    have hdrop : (front ++ task :: succ :: rest).dropLast =
        front ++ task :: (succ :: rest).dropLast := by
      simp [List.dropLast_append_of_ne_nil]
    have hfront : ∀ other ∈ front, state.taskId other ≠ state.taskId task := by
      intro other hother hid
      have heq := hunique other (List.mem_append_left _ hother) hid
      exact List.disjoint_of_nodup_append hlist.ring.nodup (heq ▸ hother) List.mem_cons_self
    rw [hdrop, List.find?_append, List.find?_eq_none.mpr (by simpa using hfront)]
    simp
  have hhead : state.readyListHead = (front ++ task :: back).head? := hlist.head
  have hloop := returns_lookupLoop (state.taskId task) (hlist.readyWalk (by simp))
  rw [hfind, ← hhead] at hloop
  exact hloop

/-- The last task of the list is not found. -/
theorem returns_getTcb_of_next_eq (hlist : state.ListIs .ready queue) (htask : task ∈ queue)
    (hunique : ∀ other ∈ queue, state.taskId other = state.taskId task → other = task)
    (hnext : state.next .ready task = state.readyListHead) :
    Returns (fun fuel => heliosGetTcbUsingTaskId fuel (state.taskId task) state) none := by
  obtain ⟨front, back, rfl⟩ := List.append_of_mem htask
  have hback : back = [] := by
    by_contra hback
    obtain ⟨succ, rest, rfl⟩ := List.exists_cons_of_ne_nil hback
    have hwalk := SchedState.ListIs.readyWalk_append front hlist (by simp)
    exact hwalk.2.1 (hwalk.1 ▸ hnext)
  subst hback
  have hfind : (front ++ [task]).dropLast.find?
      (fun other => decide (state.taskId other = state.taskId task)) = none := by
    rw [List.dropLast_concat, List.find?_eq_none]
    intro other hother
    have hne : state.taskId other ≠ state.taskId task := by
      intro hid
      have heq := hunique other (List.mem_append_left _ hother) hid
      exact List.disjoint_of_nodup_append hlist.ring.nodup (heq ▸ hother) List.mem_cons_self
    simpa using hne
  have hhead : state.readyListHead = (front ++ [task]).head? := hlist.head
  have hloop := returns_lookupLoop (state.taskId task) (hlist.readyWalk (by simp))
  rw [hfind, ← hhead] at hloop
  exact hloop

/-! ## The functions that take a handle -/

/-- The four functions, given the handle of `task`, do to it what they do to the task they
resolve their handle to, and no other task's status changes unless the current task is
deleted and so yields. -/
structure HandleActsOn (cfg : HeliosConfig) (state : SchedState) (task : Addr) : Prop where
  delete : (state.tcb task).taskFunc ≠ cfg.idleTaskFn → ∀ result,
    Returns (fun fuel => heliosDelTask cfg fuel (state.taskId task) state) result ↔
      Returns (fun fuel => deleteTcb cfg fuel (some task) state) result
  pause : ∀ result,
    Returns (fun fuel => heliosPauseTask cfg fuel (state.taskId task) state) result ↔
      pauseTcb cfg (some task) state = .done result
  resume : ∀ result,
    Returns (fun fuel => heliosResumeTask fuel (state.taskId task) state) result ↔
      resumeTcb task state = .done result
  name : Returns (fun fuel => heliosGetTaskName fuel (state.taskId task) state)
    (state.tcb task).name
  others_delete : some task ≠ state.currTask → ∀ result,
    Returns (fun fuel => heliosDelTask cfg fuel (state.taskId task) state) result →
      ∀ other, other ≠ task → result.2.status other = state.status other
  others_pause : ∀ result,
    Returns (fun fuel => heliosPauseTask cfg fuel (state.taskId task) state) result →
      ∀ other, other ≠ task → result.2.status other = state.status other
  others_resume : ∀ result,
    Returns (fun fuel => heliosResumeTask fuel (state.taskId task) state) result →
      ∀ other, other ≠ task → result.2.status other = state.status other

/-- A call that goes on from a search that settled. -/
theorem returns_after_lookup {β : Type} {found : Option Addr} {taskId : ℕ}
    {rest : ℕ → Option Addr → Run β} (hmono : ∀ found, FuelMono fun fuel => rest fuel found)
    (hfound : Returns (fun fuel => heliosGetTcbUsingTaskId fuel taskId state) found)
    (result : β) :
    Returns (fun fuel => heliosGetTcbUsingTaskId fuel taskId state >>= rest fuel) result ↔
      Returns (fun fuel => rest fuel found) result := by
  rw [returns_bind_iff (fuelMono_getTcbUsingTaskId taskId state) hmono]
  constructor
  · rintro ⟨found', hfound', hrest⟩
    rwa [hfound.unique (fuelMono_getTcbUsingTaskId taskId state) hfound']
  · exact fun hrest => ⟨found, hfound, hrest⟩

/-- A call whose rest always ends. -/
theorem returns_after_lookup_of_done {β : Type} {found : Option Addr} {taskId : ℕ}
    {rest : Option Addr → Run β}
    (hfound : Returns (fun fuel => heliosGetTcbUsingTaskId fuel taskId state) found)
    (result : β) :
    Returns (fun fuel => heliosGetTcbUsingTaskId fuel taskId state >>= rest) result ↔
      rest found = .done result := by
  rw [← returns_const_iff]
  apply returns_after_lookup _ hfound result
  exact fun found => fuelMono_const (rest found)

section Resolved

variable {found : Option Addr} {taskId : ℕ}
  (hfound : Returns (fun fuel => heliosGetTcbUsingTaskId fuel taskId state) found)

include hfound

theorem returns_delTask_iff (result : Status × SchedState) :
    Returns (fun fuel => heliosDelTask cfg fuel taskId state) result ↔
      Returns (fun fuel =>
        deleteTcb cfg fuel (if found = none then state.currTask else found) state) result :=
  returns_after_lookup (fun _ => fuelMono_deleteTcb _ _ _) hfound result

theorem returns_pauseTask_iff (result : Status × SchedState) :
    Returns (fun fuel => heliosPauseTask cfg fuel taskId state) result ↔
      pauseTcb cfg (if found = none then state.currTask else found) state = .done result :=
  returns_after_lookup_of_done hfound result

theorem returns_resumeTask_iff (result : Status × SchedState) :
    Returns (fun fuel => heliosResumeTask fuel taskId state) result ↔
      found.elim (.done (.errorFuncInvalArg, state)) (fun task => resumeTcb task state) =
        .done result := by
  cases found with
  | none => exact returns_after_lookup_of_done hfound result
  | some task => exact returns_after_lookup_of_done hfound result

theorem returns_getTaskName_iff (result : Option String) :
    Returns (fun fuel => heliosGetTaskName fuel taskId state) result ↔
      found.elim (.done none) (fun task => .done (state.tcb task).name) =
        (.done result : Run (Option String)) := by
  cases found with
  | none => exact returns_after_lookup_of_done hfound result
  | some task => exact returns_after_lookup_of_done hfound result

end Resolved

/-! ## What the functions do to the task they resolved -/

theorem status_of_pauseTcb {result : Status × SchedState}
    (hrun : pauseTcb cfg (some task) state = .done result) {other : Addr} (hother : other ≠ task) :
    result.2.status other = state.status other := by
  obtain ⟨paused, hpause, hrun⟩ := Outcome.bind_eq_done_iff.mp hrun
  rw [Outcome.pure_eq, Outcome.done.injEq] at hrun
  subst hrun
  rcases (frame_of_sendToWaitList hpause).2 with hsame | hset
  · rw [hsame]
  · rw [hset, Function.update_of_ne hother]

theorem status_of_resumeTcb {result : Status × SchedState}
    (hrun : resumeTcb task state = .done result) {other : Addr} (hother : other ≠ task) :
    result.2.status other = state.status other := by
  rw [resumeTcb] at hrun
  by_cases hpaused : state.status task ≠ .pause
  · rw [if_pos hpaused] at hrun
    obtain ⟨resumed, hresume, hrun⟩ := Outcome.bind_eq_done_iff.mp hrun
    rw [Outcome.pure_eq, Outcome.done.injEq] at hrun
    subst hrun
    rw [(frame_of_sendToResume hresume).2, Function.update_of_ne hother]
  · rw [if_neg hpaused, Outcome.pure_eq, Outcome.done.injEq] at hrun
    subst hrun
    rfl

/-- `helios_resume_task` never calls a handle invalid once it has resolved it. -/
theorem resumeTcb_ne_invalArg (state' : SchedState) :
    resumeTcb task state ≠ .done (.errorFuncInvalArg, state') := by
  intro hrun
  rw [resumeTcb] at hrun
  by_cases hpaused : state.status task ≠ .pause
  · rw [if_pos hpaused] at hrun
    obtain ⟨resumed, -, hrun⟩ := Outcome.bind_eq_done_iff.mp hrun
    simp at hrun
  · rw [if_neg hpaused] at hrun
    simp at hrun

theorem status_of_deleteTcb {result : Status × SchedState} (hcurr : some task ≠ state.currTask)
    (hrun : Returns (fun fuel => deleteTcb cfg fuel (some task) state) result) {other : Addr}
    (hother : other ≠ task) : result.2.status other = state.status other := by
  obtain ⟨fuel, hrun⟩ := hrun
  have hcurr' : some task ≠ (state.setStatus task .exit).currTask := hcurr
  simp only [deleteTcb, deref_some, Outcome.done_bind, if_neg hcurr', Outcome.pure_eq] at hrun
  by_cases hidle : (state.tcb task).taskFunc = cfg.idleTaskFn
  · rw [if_pos hidle, Outcome.done.injEq] at hrun
    subst hrun
    rfl
  by_cases hhead : some task = state.readyListHead
  · rw [if_neg hidle, if_pos hhead, Outcome.done.injEq] at hrun
    subst hrun
    rfl
  rw [if_neg hidle, if_neg hhead, Outcome.done.injEq] at hrun
  subst hrun
  simp [hother]

/-- On a well-formed ready list, the four functions given the handle of a task with a unique
id act on that task if and only if it is not the last task of the list. -/
theorem handleActsOn_iff (hlist : state.ListIs .ready queue) (htask : task ∈ queue)
    (hunique : ∀ other ∈ queue, state.taskId other = state.taskId task → other = task) :
    HandleActsOn cfg state task ↔ state.next .ready task ≠ state.readyListHead := by
  constructor
  · intro hacts hlast
    have hfound := returns_getTcb_of_next_eq hlist htask hunique hlast
    have hmissed := (returns_resumeTask_iff hfound (.errorFuncInvalArg, state)).mpr rfl
    exact resumeTcb_ne_invalArg state ((hacts.resume _).mp hmissed)
  · intro hnext
    have hfound := returns_getTcb_of_next_ne hlist htask hunique hnext
    refine ⟨fun _ result => ?_, fun result => ?_, fun result => ?_, ?_, ?_, ?_, ?_⟩
    · exact returns_delTask_iff hfound result
    · exact returns_pauseTask_iff hfound result
    · exact returns_resumeTask_iff hfound result
    · exact (returns_getTaskName_iff hfound _).mpr rfl
    · intro hcurr result hrun other hother
      exact status_of_deleteTcb hcurr ((returns_delTask_iff hfound result).mp hrun) hother
    · intro result hrun other hother
      exact status_of_pauseTcb ((returns_pauseTask_iff hfound result).mp hrun) hother
    · intro result hrun other hother
      exact status_of_resumeTcb ((returns_resumeTask_iff hfound result).mp hrun) hother

theorem handleActsOn_readyPair_first : HandleActsOn (defaultConfig false) readyPair 1 :=
  (handleActsOn_iff readyPair_listIs (by decide) (by decide)).mpr (by decide)

/-- The handle of the second task is unknown. -/
theorem exists_not_handleActsOn :
    readyPair.ListIs .ready [1, 2] ∧ 2 ∈ [1, 2] ∧
      (∀ other ∈ [1, 2], readyPair.taskId other = readyPair.taskId 2 → other = 2) ∧
      ¬ HandleActsOn (defaultConfig false) readyPair 2 := by
  refine ⟨readyPair_listIs, by decide, by decide, fun hacts => ?_⟩
  have hmissed : Returns (fun fuel => heliosResumeTask fuel (readyPair.taskId 2) readyPair)
      (.errorFuncInvalArg, readyPair) := ⟨2, rfl⟩
  exact resumeTcb_ne_invalArg readyPair ((hacts.resume _).mp hmissed)

end Cyancore.Helios
