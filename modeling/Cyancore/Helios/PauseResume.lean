/-
# Pausing a task and resuming it

`helios_resume_task` is there to resume paused tasks.  Its test is the wrong way round: a
paused task is refused with the message that the call is for paused tasks only, and every
other one is passed on to `_helios_sched_send_to_resume`.  So what `helios_pause_task` does
is never undone by `helios_resume_task`.
-/

import Cyancore.Helios.Bracket
import Cyancore.Helios.Handles

namespace Cyancore.Helios

open Cyancore.Math

variable {cfg : HeliosConfig} {state state' paused : SchedState} {task : Addr} {handle : ℕ}

/-- Both calls succeed, and they leave the task ready and the lists and the other tasks as they
were. -/
def PauseUndone (cfg : HeliosConfig) (handle : ℕ) (task : Addr) (state : SchedState) : Prop :=
  ∃ paused resumed,
    Returns (fun fuel => heliosPauseTask cfg fuel handle state) (.success, paused) ∧
    Returns (fun fuel => heliosResumeTask fuel handle paused) (.success, resumed) ∧
    resumed.status task = .ready ∧
    (∀ linkType nodes, state.ListIs linkType nodes → resumed.ListIs linkType nodes) ∧
    ∀ other, other ≠ task → resumed.tcb other = state.tcb other

/-! ## The handle between the calls -/

/-- A handle is resolved by what the frame of the state holds. -/
theorem getTcb_of_frame (hframe : state'.frame = state.frame) (fuel : ℕ) :
    heliosGetTcbUsingTaskId fuel handle state' = heliosGetTcbUsingTaskId fuel handle state := by
  have hturn : lookupTurn handle state' = lookupTurn handle state :=
    show lookupTurn handle state'.frame = lookupTurn handle state.frame by rw [hframe]
  rw [heliosGetTcbUsingTaskId, heliosGetTcbUsingTaskId, hturn,
    SchedState.readyListHead_of_frame hframe]

section Found

variable (hfound : Returns (fun fuel => heliosGetTcbUsingTaskId fuel handle state) (some task))

include hfound

/-- `helios_pause_task` leaves the task paused and the frame as it was. -/
theorem swept_of_pauseTask {result : Status}
    (hrun : Returns (fun fuel => heliosPauseTask cfg fuel handle state) (result, paused)) :
    SweptOver [task] Paused state paused := by
  have hpause := (returns_pauseTask_iff hfound _).mp hrun
  rw [if_neg (by simp)] at hpause
  obtain ⟨paused', hsend, hresult⟩ := Outcome.bind_eq_done_iff.mp hpause
  obtain ⟨-, rfl⟩ := Prod.mk.inj (Outcome.done.inj hresult)
  exact swept_of_sendToPause hsend

/-- After it `helios_resume_task` refuses the handle and changes nothing. -/
theorem returns_resume_iff_of_paused {result : Status}
    (hrun : Returns (fun fuel => heliosPauseTask cfg fuel handle state) (result, paused))
    (answer : Status × SchedState) :
    Returns (fun fuel => heliosResumeTask fuel handle paused) answer ↔
      (.errorOsInvalidOp, paused) = answer := by
  have hswept := swept_of_pauseTask hfound hrun
  have hstatus : paused.status task = .pause := hswept.listed task (List.mem_singleton_self task)
  have hfound' : Returns (fun fuel => heliosGetTcbUsingTaskId fuel handle paused) (some task) := by
    simpa only [getTcb_of_frame hswept.frame] using hfound
  rw [returns_resumeTask_iff hfound']
  simp [resumeTcb, hstatus]

/-- On a wait list in good order the task is appended, and stays there after both calls. -/
theorem exists_paused_refused {waiting : List Addr} (hwait : state.ListIs .wait waiting)
    (haway : task ∉ waiting) (hstatus : state.status task ≠ .pause) :
    ∃ paused, Returns (fun fuel => heliosPauseTask cfg fuel handle state) (.success, paused) ∧
      Returns (fun fuel => heliosResumeTask fuel handle paused) (.errorOsInvalidOp, paused) ∧
      paused.ListIs .wait (waiting ++ [task]) ∧ paused.frame = state.frame ∧
      paused.status = Function.update state.status task .pause := by
  obtain ⟨paused, hrun, hlist, hframe, hset⟩ := exists_sendToPause cfg hwait haway hstatus
  have hpause : Returns (fun fuel => heliosPauseTask cfg fuel handle state)
      (.success, paused) := by
    rw [returns_pauseTask_iff hfound, if_neg (by simp), pauseTcb, hrun]
    rfl
  exact ⟨paused, hpause, (returns_resume_iff_of_paused hfound hpause _).mpr rfl, hlist, hframe,
    hset⟩

/-- No pause of a task that is found by its handle is undone by resuming it. -/
theorem not_pauseUndone : ¬ PauseUndone cfg handle task state := by
  rintro ⟨paused, resumed, hpause, hresume, -⟩
  cases (returns_resume_iff_of_paused hfound hpause _).mp hresume

end Found

/-! ## Two tasks -/

/-- Two ready tasks with ids 1 and 2, of which the second is current. -/
def secondCurrent : SchedState := { readyPair with currTask := some 2 }

theorem returns_getTcb_secondCurrent :
    Returns (fun fuel => heliosGetTcbUsingTaskId fuel 1 secondCurrent) (some 1) := ⟨1, rfl⟩

theorem not_pauseUndone_first : ¬ PauseUndone (defaultConfig false) 1 1 secondCurrent :=
  not_pauseUndone returns_getTcb_secondCurrent

/-- The first task is ready, is not current and is found by its id; it is paused and stays so. -/
theorem paused_not_undone :
    secondCurrent.ListIs .ready [1, 2] ∧ secondCurrent.ListIs .wait [] ∧
      secondCurrent.status 1 = .ready ∧ some 1 ≠ secondCurrent.currTask ∧
      Returns (fun fuel => heliosGetTcbUsingTaskId fuel 1 secondCurrent) (some 1) ∧
      ¬ PauseUndone (defaultConfig false) 1 1 secondCurrent := by
  have hwait : secondCurrent.ListIs .wait [] := ⟨Links.ring_nil, rfl⟩
  refine ⟨⟨readyPair_listIs.ring, rfl⟩, hwait, by decide, by decide,
    returns_getTcb_secondCurrent, ?_⟩
  rintro ⟨paused, resumed, hpause, hresume, -⟩
  cases (returns_resume_iff_of_paused returns_getTcb_secondCurrent hpause _).mp hresume

end Cyancore.Helios
