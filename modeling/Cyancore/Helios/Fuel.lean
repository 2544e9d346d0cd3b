/-
# Watching the kernel calls for longer

Every function of the scheduler and of the task interface that takes fuel settles:
once it has returned or faulted, more fuel changes nothing.  This is what makes the
result of a call a property of the call and not of the fuel it was watched with.
-/

import Cyancore.Helios.Tasks

namespace Cyancore.Helios

open Cyancore.Math

/-! ## The scheduler -/

theorem fuelMono_waitListAdjustment (cfg : HeliosConfig) (state : SchedState) :
    FuelMono fun fuel => heliosSchedWaitListAdjustment cfg fuel state := by
  unfold heliosSchedWaitListAdjustment
  cases state.waitListHead with
  | none => exact fuelMono_const _
  | some head => exact fuelMono_loop _ _

theorem fuelMono_deadlockAdjustment (cfg : HeliosConfig) (state : SchedState) :
    FuelMono fun fuel => heliosSchedDeadlockAdjustmentAndDetection cfg fuel state := by
  unfold heliosSchedDeadlockAdjustmentAndDetection
  by_cases hoption : cfg.antiDeadlock
  · simp only [if_pos hoption]
    exact fuelMono_loop _ _
  · simp only [if_neg hoption]
    exact fuelMono_const _

theorem fuelMono_sendBackOfTaskPrio (nodePtr : Option Addr) (state : SchedState) :
    FuelMono fun fuel => heliosSchedSendBackOfTaskPrio fuel nodePtr state := by
  unfold heliosSchedSendBackOfTaskPrio
  cases nodePtr with
  | none => exact fuelMono_const _
  | some node =>
      by_cases hnone : state.readyListHead = none
      · simp only [if_pos hnone]
        exact fuelMono_const _
      · by_cases hself : some node = state.readyListHead
        · simp only [if_neg hnone, if_pos hself]
          exact fuelMono_const _
        · simp only [if_neg hnone, if_neg hself]
          exact (fuelMono_loop _ _).bind fun _ => fuelMono_const _

theorem fuelMono_preSched (cfg : HeliosConfig) (state : SchedState) :
    FuelMono fun fuel => heliosPreSched cfg fuel state := by
  refine (fuelMono_const _).bind fun curr => ?_
  refine (fuelMono_waitListAdjustment _ _).bind fun swept => ?_
  refine (fuelMono_deadlockAdjustment _ _).bind fun checked => ?_
  exact (fuelMono_sendBackOfTaskPrio _ _).bind fun _ => fuelMono_const _

theorem fuelMono_priorityDriven (state : SchedState) :
    FuelMono fun fuel => heliosSchedAlgoPriorityDrivenFn fuel state := by
  refine (fuelMono_const _).bind fun head => ?_
  by_cases hnone : state.prev .ready head = none
  · simp only [if_pos hnone]
    exact fuelMono_const _
  · simp only [if_neg hnone]
    exact (fuelMono_loop _ _).bind fun _ => fuelMono_const _

theorem fuelMono_runSelectedSched (state : SchedState) :
    FuelMono fun fuel => runSelectedSched fuel state := by
  unfold runSelectedSched
  cases state.selectedSched with
  | none => exact fuelMono_const _
  | some algo =>
      cases algo with
      | roundRobin => exact fuelMono_const _
      | priorityDriven => exact fuelMono_priorityDriven state

theorem fuelMono_despatch (cfg : HeliosConfig) (state : SchedState) :
    FuelMono fun fuel => heliosSchedulerDespatch cfg fuel state := by
  unfold heliosSchedulerDespatch
  by_cases hhook : state.preSched
  · simp only [if_pos hhook]
    exact (fuelMono_preSched cfg state).bind fun _ => fuelMono_runSelectedSched _
  · simp only [if_neg hhook]
    exact fuelMono_const _

/-! ## The task interface -/

theorem fuelMono_pauseAll (cfg : HeliosConfig) (state : SchedState) :
    FuelMono fun fuel => heliosPauseAllTask cfg fuel state := by
  unfold heliosPauseAllTask
  by_cases hnone : state.readyListHead = none
  · simp only [if_pos hnone]
    exact fuelMono_const _
  · simp only [if_neg hnone]
    exact (fuelMono_loop _ _).bind fun _ => fuelMono_const _

theorem fuelMono_resumeAll (state : SchedState) :
    FuelMono fun fuel => heliosResumeAllTask fuel state := by
  unfold heliosResumeAllTask
  by_cases hnone : state.readyListHead = none
  · simp only [if_pos hnone]
    exact fuelMono_const _
  · simp only [if_neg hnone]
    exact (fuelMono_loop _ _).bind fun _ => fuelMono_const _

theorem fuelMono_addTask (cfg : HeliosConfig) (handle : ℕ) (args : TaskArgs)
    (memory : TaskMemory) (state : SchedState) :
    FuelMono fun fuel => heliosAddTask cfg fuel handle args memory state := by
  unfold heliosAddTask
  by_cases haccepted : handle = 0 ∧ args.Accepted
  · simp only [if_pos haccepted]
    refine (fuelMono_pauseAll cfg state).bind fun paused => ?_
    cases memory.block with
    | none => exact (fuelMono_resumeAll _).bind fun _ => fuelMono_const _
    | some task =>
        by_cases hstack : memory.stack = 0
        · simp only [if_pos hstack]
          exact (fuelMono_resumeAll _).bind fun _ => fuelMono_const _
        · simp only [if_neg hstack]
          refine (fuelMono_sendBackOfTaskPrio _ _).bind fun placed => ?_
          exact (fuelMono_resumeAll _).bind fun _ => fuelMono_const _
  · simp only [if_neg haccepted]
    exact fuelMono_const _

theorem fuelMono_runInit (cfg : HeliosConfig) (handle : ℕ) (memory : TaskMemory)
    (state : SchedState) : FuelMono fun fuel => heliosRunInit cfg fuel handle memory state :=
  (fuelMono_addTask _ _ _ _ _).bind fun _ => fuelMono_const _

theorem fuelMono_getTcbUsingTaskId (taskId : ℕ) (state : SchedState) :
    FuelMono fun fuel => heliosGetTcbUsingTaskId fuel taskId state :=
  fuelMono_loop _ _

theorem fuelMono_deleteTcb (cfg : HeliosConfig) (ptr : Option Addr) (state : SchedState) :
    FuelMono fun fuel => deleteTcb cfg fuel ptr state := by
  refine (fuelMono_const _).bind fun task => ?_
  by_cases hidle : (state.tcb task).taskFunc = cfg.idleTaskFn
  · simp only [if_pos hidle]
    exact fuelMono_const _
  by_cases hhead : some task = state.readyListHead
  · simp only [if_neg hidle, if_pos hhead]
    exact fuelMono_const _
  by_cases hcurr : some task = (state.setStatus task .exit).currTask
  · simp only [if_neg hidle, if_neg hhead, if_pos hcurr]
    exact (fuelMono_despatch _ _).bind fun _ => fuelMono_const _
  · simp only [if_neg hidle, if_neg hhead, if_neg hcurr]
    exact fuelMono_const _

end Cyancore.Helios
