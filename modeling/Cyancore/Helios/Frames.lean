/-
# What the list operations leave alone

Whatever the lists look like, a list operation that returns has written pointers and
the head of one list only.  Sending a task to wait, pausing it and resuming it also
rewrite the status of that task and its countdown.  Everything else is the frame of
the state, and it survives every such call.
-/

import Cyancore.Helios.WaitList

namespace Cyancore.Helios

open Cyancore.Math

variable {state state' : SchedState}

/-! ## The frame -/

/-- A control block without its place on the wait list, its status and what it waits for. -/
def Tcb.frame (task : Tcb) : Tcb :=
  { task with waitLink := ⟨none, none⟩, waitRes := ⟨0, 0⟩, taskStatus := .exit }

/-- The state without its wait list, its statuses and what its tasks wait for. -/
def SchedState.frame (state : SchedState) : SchedState :=
  { state with tcb := fun addr => (state.tcb addr).frame, waitListHead := none }

namespace SchedState

variable (addr : Addr)

/-- A rewrite of the framed-out fields of a block leaves the frame. -/
theorem frame_modify {change : Tcb → Tcb} (hkeep : ∀ task, (change task).frame = task.frame) :
    (state.modify addr change).frame = state.frame :=
  congrArg (fun tcb => { state with tcb := tcb, waitListHead := none }) <|
    funext <| read_modify state addr change Tcb.frame hkeep

@[simp]
theorem frame_setStatus (value : TaskStatus) : (state.setStatus addr value).frame = state.frame :=
  frame_modify addr fun _ => rfl

@[simp]
theorem frame_setDelay (ticks : ℕ) : (state.setDelay addr ticks).frame = state.frame :=
  frame_modify addr fun _ => rfl

@[simp]
theorem frame_setResource (resource : ℕ) :
    (state.setResource addr resource).frame = state.frame :=
  frame_modify addr fun _ => rfl

@[simp]
theorem frame_putList_wait (links : Links Addr) (head : Option Addr) :
    (state.putList .wait links head).frame = state.frame := rfl

variable (hframe : state'.frame = state.frame)

include hframe

theorem links_ready_of_frame : state'.links .ready = state.links .ready :=
  congrArg (fun s => s.links .ready) hframe

theorem next_ready_of_frame : state'.next .ready = state.next .ready :=
  congrArg (fun s => s.next .ready) hframe

theorem readyListHead_of_frame : state'.readyListHead = state.readyListHead :=
  congrArg (fun s => s.readyListHead) hframe

theorem currTask_of_frame : state'.currTask = state.currTask :=
  congrArg (fun s => s.currTask) hframe

theorem taskIdGen_of_frame : state'.taskIdGen = state.taskIdGen :=
  congrArg (fun s => s.taskIdGen) hframe

theorem heapBlocks_of_frame : state'.heapBlocks = state.heapBlocks :=
  congrArg (fun s => s.heapBlocks) hframe

theorem priority_of_frame : state'.priority = state.priority :=
  congrArg (fun s => s.priority) hframe

/-- The ready list is part of the frame. -/
theorem ListIs.of_frame {nodes : List Addr} (hlist : state.ListIs .ready nodes) :
    state'.ListIs .ready nodes where
  ring := (links_ready_of_frame hframe).symm ▸ hlist.ring
  head := (readyListHead_of_frame hframe).trans hlist.head

end SchedState

/-- What resuming makes of a status. -/
def TaskStatus.resumed (status : TaskStatus) : TaskStatus :=
  if status.Blocked then .ready else status

@[simp]
theorem TaskStatus.not_blocked_resumed (status : TaskStatus) : ¬ status.resumed.Blocked := by
  cases status <;> decide

@[simp]
theorem TaskStatus.resumed_resumed (status : TaskStatus) :
    status.resumed.resumed = status.resumed := by
  cases status <;> rfl

theorem TaskStatus.eq_running_of_resumed {status : TaskStatus}
    (h : status.resumed = .running) : status = .running := by
  revert h
  cases status <;> decide

/-! ## Calls that return -/

section Calls

variable {linkType : LinkType} {node task : Addr} {ptr head : Option Addr} {result : Status}

/-- Linking a task in writes pointers of one list only. -/
theorem exists_putList_of_insertBefore
    (hrun : heliosSchedInsertBefore ptr (some node) linkType state = .done (result, head, state')) :
    ∃ links, state' = state.putList linkType links (state.listHead linkType) := by
  cases ptr with
  | none =>
      rw [heliosSchedInsertBefore_of_none, Outcome.done.injEq, Prod.mk.injEq, Prod.mk.injEq] at hrun
      exact ⟨_, hrun.2.2.symm⟩
  | some ref =>
      obtain ⟨pred, -, hrun⟩ := Outcome.bind_eq_done_iff.mp hrun
      simp only [Outcome.pure_eq, Outcome.done.injEq, Prod.mk.injEq,
        SchedState.setNext_eq_putList, SchedState.setPrev_eq_putList,
        SchedState.putList_putList, SchedState.listHead_putList_self] at hrun
      exact ⟨_, hrun.2.2.symm⟩

/-- So does unlinking one. -/
theorem exists_putList_of_unlink (hrun : unlink linkType node state = .done state') :
    ∃ links, state' = state.putList linkType links (state.listHead linkType) := by
  obtain ⟨pred, -, hrun⟩ := Outcome.bind_eq_done_iff.mp hrun
  obtain ⟨succ, -, hrun⟩ := Outcome.bind_eq_done_iff.mp hrun
  simp only [Outcome.pure_eq, Outcome.done.injEq, SchedState.setNext_eq_putList,
    SchedState.setPrev_eq_putList, SchedState.putList_putList,
    SchedState.listHead_putList_self] at hrun
  exact ⟨_, hrun.symm⟩

/-- Detaching a task may move the head as well. -/
theorem exists_putList_of_nodeDetach
    (hrun : heliosSchedNodeDetach (some node) linkType state = .done (result, state')) :
    ∃ links head, state' = state.putList linkType links head := by
  cases linkType with
  | wait =>
      obtain ⟨unlinked, hunlink, hrun⟩ := Outcome.bind_eq_done_iff.mp hrun
      obtain ⟨-, rfl⟩ := Prod.mk.inj (Outcome.done.inj hrun)
      obtain ⟨links, rfl⟩ := exists_putList_of_unlink hunlink
      split
      · exact ⟨links, _, rfl⟩
      · exact ⟨links, _, rfl⟩
  | ready =>
      obtain ⟨unlinked, hunlink, hrun⟩ := Outcome.bind_eq_done_iff.mp hrun
      obtain ⟨-, rfl⟩ := Prod.mk.inj (Outcome.done.inj hrun)
      obtain ⟨links, rfl⟩ := exists_putList_of_unlink hunlink
      split
      · exact ⟨links, _, rfl⟩
      · exact ⟨links, _, rfl⟩

/-- What sending a task to the wait list can do. -/
theorem sendToWaitList_cases {target : TaskStatus} {ticks : ℕ}
    (hrun : sendToWaitList target ticks (some task) state = .done state') :
    (state.status task = target ∧ state' = state) ∨
      (state.status task ≠ target ∧ ∃ links head,
        state' = ((state.putList .wait links head).setDelay task ticks).setStatus task target) := by
  by_cases hstatus : state.status task = target
  · rw [sendToWaitList_of_status hstatus, Outcome.done.injEq] at hrun
    exact .inl ⟨hstatus, hrun.symm⟩
  · simp only [sendToWaitList, deref_some, Outcome.done_bind, if_neg hstatus] at hrun
    obtain ⟨⟨result, head, linked⟩, hinsert, hrun⟩ := Outcome.bind_eq_done_iff.mp hrun
    have hsuccess : result = .success := by
      revert hinsert
      cases state.waitListHead with
      | none => simp +contextual [heliosSchedInsertBefore]
      | some ref =>
          intro hinsert
          obtain ⟨pred, -, hinsert⟩ := Outcome.bind_eq_done_iff.mp hinsert
          exact (Prod.mk.inj (Outcome.done.inj hinsert)).1.symm
    obtain ⟨links, rfl⟩ := exists_putList_of_insertBefore hinsert
    simp only [if_pos hsuccess, Outcome.pure_eq, Outcome.done.injEq] at hrun
    exact .inr ⟨hstatus, links, head, hrun.symm⟩

/-- What resuming a task can do. -/
theorem sendToResume_cases (hrun : heliosSchedSendToResume (some task) state = .done state') :
    (¬ (state.status task).Blocked ∧ state' = state) ∨
      ((state.status task).Blocked ∧ ∃ links head,
        state' = ((state.putList .wait links head).setDelay task 0).setStatus task .ready) := by
  by_cases hblocked : (state.status task).Blocked
  · have hcode := TaskStatus.blocked_iff_code.mp hblocked
    simp only [heliosSchedSendToResume, deref_some, Outcome.done_bind, if_neg hcode] at hrun
    obtain ⟨⟨result, detached⟩, hdetach, hrun⟩ := Outcome.bind_eq_done_iff.mp hrun
    obtain ⟨links, head, rfl⟩ := exists_putList_of_nodeDetach hdetach
    refine .inr ⟨hblocked, links, head, ?_⟩
    rw [← Outcome.done.inj hrun]
    split
    · split
      · rfl
      · rfl
    · rfl
  · rw [heliosSchedSendToResume_of_not_blocked hblocked, Outcome.done.injEq] at hrun
    exact .inl ⟨hblocked, hrun.symm⟩

/-- Sending a task to the wait list changes at most its own status. -/
theorem frame_of_sendToWaitList {target : TaskStatus} {ticks : ℕ}
    (hrun : sendToWaitList target ticks (some task) state = .done state') :
    state'.frame = state.frame ∧
      (state'.status = state.status ∨
        state'.status = Function.update state.status task target) := by
  rcases sendToWaitList_cases hrun with ⟨-, rfl⟩ | ⟨-, links, head, rfl⟩
  · exact ⟨rfl, .inl rfl⟩
  · exact ⟨by simp, .inr (by simp)⟩

/-- Resuming a task changes at most its own status, and to ready. -/
theorem frame_of_sendToResume
    (hrun : heliosSchedSendToResume (some task) state = .done state') :
    state'.frame = state.frame ∧
      state'.status = Function.update state.status task (state.status task).resumed := by
  rcases sendToResume_cases hrun with ⟨hblocked, rfl⟩ | ⟨hblocked, links, head, rfl⟩
  · simp [TaskStatus.resumed, hblocked]
  · simp [TaskStatus.resumed, hblocked]

/-- Moving a task on the ready list writes that list only. -/
theorem exists_putList_of_sendBack {fuel : ℕ}
    (hrun : heliosSchedSendBackOfTaskPrio fuel ptr state = .done (result, state')) :
    ∃ links head, state' = state.putList .ready links head := by
  have hsame : ∃ links head, state = state.putList .ready links head :=
    ⟨_, _, (state.putList_self .ready).symm⟩
  cases ptr with
  | none =>
      obtain ⟨-, rfl⟩ := Prod.mk.inj (Outcome.done.inj hrun)
      exact hsame
  | some node =>
      rw [heliosSchedSendBackOfTaskPrio] at hrun
      split at hrun
      · obtain ⟨-, rfl⟩ := Prod.mk.inj (Outcome.done.inj hrun)
        exact hsame
      split at hrun
      · obtain ⟨-, rfl⟩ := Prod.mk.inj (Outcome.done.inj hrun)
        exact hsame
      obtain ⟨⟨ref, least⟩, -, hrun⟩ := Outcome.bind_eq_done_iff.mp hrun
      obtain ⟨head, hmoved⟩ : ∃ head, (if least then { state with readyListHead := some node }
          else state) = state.putList .ready (state.links .ready) head := by
        split
        · exact ⟨_, rfl⟩
        · exact ⟨_, (state.putList_self .ready).symm⟩
      simp only [hmoved] at hrun
      split at hrun
      · obtain ⟨⟨result, ref', linked⟩, hinsert, hrun⟩ := Outcome.bind_eq_done_iff.mp hrun
        obtain ⟨links, rfl⟩ := exists_putList_of_insertBefore hinsert
        obtain ⟨-, rfl⟩ := Prod.mk.inj (Outcome.done.inj hrun)
        exact ⟨links, _, by rw [SchedState.putList_putList]⟩
      · obtain ⟨⟨result, detached⟩, hdetach, hrun⟩ := Outcome.bind_eq_done_iff.mp hrun
        obtain ⟨⟨result, ref', linked⟩, hinsert, hrun⟩ := Outcome.bind_eq_done_iff.mp hrun
        obtain ⟨links, head', rfl⟩ := exists_putList_of_nodeDetach hdetach
        obtain ⟨links', rfl⟩ := exists_putList_of_insertBefore hinsert
        obtain ⟨-, rfl⟩ := Prod.mk.inj (Outcome.done.inj hrun)
        exact ⟨links', _, by rw [SchedState.putList_putList, SchedState.putList_putList]⟩

end Calls

end Cyancore.Helios
