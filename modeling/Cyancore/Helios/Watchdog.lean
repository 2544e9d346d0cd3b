/-
# The watchdog sweep

With `HELIOS_ANTI_DEADLOCK` the pre-scheduler counts down the watchdog of every task and
ends those whose count is out.  The loop of the source tests whether the next task is the
head of the ready list, but it never moves on to that task: it is right for a list of at
most one task, and never comes back from a longer one.
-/

import Cyancore.Helios.Despatch

namespace Cyancore.Helios

open Cyancore.Math

variable {cfg : HeliosConfig} {state state' : SchedState} {ready : List Addr} {head : Addr}

/-! ## One sweep -/

/-- `addr->task_wd_ticks`. -/
def SchedState.wdTicks (state : SchedState) (addr : Addr) : ℕ := (state.tcb addr).taskWdTicks

/-- The count of a task after the sweep; that of a paused task stands still. -/
def countedTicks (cfg : HeliosConfig) (state : SchedState) (task : Addr) : ℕ :=
  if state.status task = .pause then state.wdTicks task else cfg.sizePred (state.wdTicks task)

/-- The call returns; it has counted once for every task of the list, and has ended the tasks
whose count is out, each with one notification. -/
def SweepsWatchdogs (cfg : HeliosConfig) (ready : List Addr) (state : SchedState) : Prop :=
  ∃ state', Returns (fun fuel => heliosSchedDeadlockAdjustmentAndDetection cfg fuel state) state' ∧
    (∀ task, state'.wdTicks task =
      if task ∈ ready then countedTicks cfg state task else state.wdTicks task) ∧
    (∀ task, state'.status task =
      if task ∈ ready ∧ countedTicks cfg state task = 0 then .exit else state.status task) ∧
    state'.notified =
      (ready.filter fun task => countedTicks cfg state task = 0).reverse ++ state.notified

@[simp]
theorem SchedState.wdTicks_setStatus (addr : Addr) (value : TaskStatus) :
    (state.setStatus addr value).wdTicks = state.wdTicks :=
  funext <| read_modify _ _ _ Tcb.taskWdTicks fun _ => rfl

/-- The count of one task. -/
theorem exists_counted (cfg : HeliosConfig) (state : SchedState) (task : Addr) :
    ∃ counted, (if state.status task ≠ .pause then
        state.modify task fun block =>
          { block with taskWdTicks := cfg.sizePred block.taskWdTicks }
      else state) = counted ∧
      counted.wdTicks = Function.update state.wdTicks task (countedTicks cfg state task) ∧
      counted.status = state.status ∧ counted.next .ready = state.next .ready ∧
      counted.readyListHead = state.readyListHead ∧
      counted.deadlockNotify = state.deadlockNotify ∧ counted.notified = state.notified := by
  by_cases hpause : state.status task = .pause
  · refine ⟨state, if_neg (not_not.mpr hpause), ?_, rfl, rfl, rfl, rfl, rfl⟩
    rw [countedTicks, if_pos hpause, Function.update_eq_self]
  · refine ⟨_, if_pos hpause, ?_, ?_, ?_, rfl, rfl, rfl⟩
    · rw [countedTicks, if_neg hpause]
      ext1 other
      rw [SchedState.wdTicks, SchedState.tcb_modify, Function.update_apply]
      split
      · rfl
      · rfl
    · exact funext <| SchedState.read_modify _ _ _ Tcb.taskStatus fun _ => rfl
    · have hlinks := SchedState.links_modify state .ready task (fun block =>
        { block with taskWdTicks := cfg.sizePred block.taskWdTicks }) fun _ => rfl
      exact congrArg Links.next hlinks

/-- The turn of a task that is followed by the head of the list is the last one. -/
theorem exists_deadlockTurn (cfg : HeliosConfig) (hnotify : state.deadlockNotify = true)
    (hnext : state.next .ready head = state.readyListHead) :
    ∃ state', deadlockTurn cfg (some head, state) = .done (.exit state') ∧
      state'.wdTicks = Function.update state.wdTicks head (countedTicks cfg state head) ∧
      state'.status = Function.update state.status head
        (if countedTicks cfg state head = 0 then .exit else state.status head) ∧
      state'.notified =
        [head].filter (fun task => countedTicks cfg state task = 0) ++ state.notified := by
  obtain ⟨counted, hcounted, hticks, hstatus, hlinks, hhead, hhook, hnotified⟩ :=
    exists_counted cfg state head
  have hcount : (counted.tcb head).taskWdTicks = countedTicks cfg state head :=
    (congrFun hticks head).trans (Function.update_self _ _ _)
  simp only [deadlockTurn, hcounted, hcount, hhook, hnotify, and_true]
  by_cases hout : countedTicks cfg state head = 0
  · have hlast : (counted.setStatus head .exit).next .ready head = counted.readyListHead := by
      rw [SchedState.next_setStatus, hlinks, hhead, hnext]
    simp only [if_pos hout]
    refine ⟨_, if_pos hlast, ?_, ?_, ?_⟩
    · exact (SchedState.wdTicks_setStatus head .exit).trans hticks
    · exact (SchedState.status_setStatus counted head .exit).trans (by rw [hstatus])
    · simp [hnotified, hout]
  · have hlast : counted.next .ready head = counted.readyListHead := by
      rw [hlinks, hhead, hnext]
    simp only [if_neg hout]
    refine ⟨counted, if_pos hlast, hticks, ?_, ?_⟩
    · rw [hstatus, Function.update_eq_self]
    · simp [hnotified, hout]

/-! ## Which lists it is right for -/

section Lists

variable (hoption : cfg.antiDeadlock = true)

include hoption

/-- There is nothing to count on an empty list. -/
theorem sweepsWatchdogs_nil (hlist : state.ListIs .ready []) : SweepsWatchdogs cfg [] state := by
  have hhead : state.readyListHead = none := hlist.head
  refine ⟨state, ⟨1, ?_⟩, by simp, by simp, by simp⟩
  simp [heliosSchedDeadlockAdjustmentAndDetection, hoption, hhead, loop, deadlockTurn]

theorem sweepsWatchdogs_singleton (hnotify : state.deadlockNotify = true)
    (hlist : state.ListIs .ready [head]) : SweepsWatchdogs cfg [head] state := by
  have hhead : state.readyListHead = some head := hlist.head
  have hself : state.next .ready head = some head :=
    (@Links.Ring.joined_last _ _ [] head head hlist.ring rfl).1
  obtain ⟨state', hturn, hticks, hstatus, hnotified⟩ :=
    exists_deadlockTurn cfg hnotify (hself.trans hhead.symm)
  refine ⟨state', ?_, fun task => ?_, fun task => ?_, ?_⟩
  · simp only [heliosSchedDeadlockAdjustmentAndDetection, if_pos hoption, hhead]
    exact (returns_loop_of_exit hturn).mpr rfl
  · rw [hticks, Function.update_apply]
    by_cases heq : task = head
    · simp [heq]
    · simp [heq]
  · rw [hstatus, Function.update_apply]
    by_cases heq : task = head
    · simp [heq]
    · simp [heq]
  · rw [hnotified]
    congr 1
    by_cases hout : countedTicks cfg state head = 0
    · simp [hout]
    · simp [hout]

/-- From two tasks on the sweep never ends. -/
theorem not_sweepsWatchdogs_cons {succ : Addr} {rest : List Addr}
    (hlist : state.ListIs .ready (head :: succ :: rest)) :
    ¬ SweepsWatchdogs cfg (head :: succ :: rest) state := by
  rintro ⟨state', hreturns, -⟩
  have hhead : state.readyListHead = some head := hlist.head
  have hwalk := hlist.readyWalk (by simp)
  have hspin := diverges_deadlockAdjustment hoption hhead (hwalk.1 ▸ hwalk.2.1)
  exact hspin.not_returns state' hreturns

/-- With the option and the hook set, the sweep does its work exactly if the ready list holds at
most one task. -/
theorem sweepsWatchdogs_iff (hnotify : state.deadlockNotify = true)
    (hlist : state.ListIs .ready ready) :
    SweepsWatchdogs cfg ready state ↔ ready.length ≤ 1 := by
  match ready with
  | [] => exact iff_of_true (sweepsWatchdogs_nil hoption hlist) (by simp)
  | [head] => exact iff_of_true (sweepsWatchdogs_singleton hoption hnotify hlist) (by simp)
  | head :: succ :: rest => exact iff_of_false (not_sweepsWatchdogs_cons hoption hlist) (by simp)

end Lists

/-! ## One task and two -/

/-- One task, whose count is about to run out. -/
def lastTick : SchedState :=
  { bootState (fun _ => { Tcb.zero with
      taskId := 1, readyLink := ⟨some 1, some 1⟩, taskStatus := .ready, taskWdTicks := 1 })
      (fun _ => 0) [] with
    readyListHead := some 1
    deadlockNotify := true }

theorem sweepsWatchdogs_lastTick : SweepsWatchdogs (defaultConfig true) [1] lastTick :=
  (sweepsWatchdogs_iff rfl rfl
    ⟨⟨by decide, .cons_cons ⟨rfl, rfl⟩ (.singleton 1)⟩, rfl⟩).mpr (by decide)

/-- Two ready tasks with the hook set. -/
theorem not_sweepsWatchdogs_readyPair :
    (defaultConfig true).antiDeadlock = true ∧
      { readyPair with deadlockNotify := true }.deadlockNotify = true ∧
      SchedState.ListIs { readyPair with deadlockNotify := true } .ready [1, 2] ∧
      ¬ SweepsWatchdogs (defaultConfig true) [1, 2] { readyPair with deadlockNotify := true } := by
  have hlist : SchedState.ListIs { readyPair with deadlockNotify := true } .ready [1, 2] :=
    ⟨readyPair_listIs.ring, readyPair_listIs.head⟩
  exact ⟨rfl, rfl, hlist, not_sweepsWatchdogs_cons rfl hlist⟩

end Cyancore.Helios
