/-
# The HELIOS scheduler

`helios_sched.c` keeps its tasks in two circular doubly linked lists threaded
through the task control blocks: the ready list holds every task in order of
priority, the wait list those that wait or are paused.  The embedding is the C
text with its stores made explicit: a pointer is `none` when null, following a
null pointer faults, and the loops run on fuel.

All functions are called with `&g_sched_ctrl`, so the control block and the TCBs
are one state.  `task_flags`, the sleep hooks and the log messages are read by no
function below and are left out.
-/

import Cyancore.Basic
import Mathlib.Algebra.Group.Int.Defs
import Mathlib.Algebra.Group.Nat.Defs
import Mathlib.Data.Int.Notation
import Mathlib.Logic.Function.Basic

namespace Cyancore.Helios

open Cyancore.Math

/-- The address of a task control block. -/
abbrev Addr := ℕ

/-- `helios_sched_task_status_t`. -/
inductive TaskStatus
  | exit
  | running
  | ready
  | wait
  | pause
  deriving DecidableEq, Repr

/-- The enumeration values, by which the scheduler compares statuses. -/
def TaskStatus.code : TaskStatus → ℕ
  | .exit => 0
  | .running => 1
  | .ready => 2
  | .wait => 3
  | .pause => 4

/-- `HELIOS_LINK_WAIT` and `HELIOS_LINK_READY`. -/
inductive LinkType
  | wait
  | ready
  deriving DecidableEq, Repr

/-- `helios_sched_algo_t`. -/
inductive SchedAlgo
  | roundRobin
  | priorityDriven
  deriving DecidableEq, Repr

/-- `link_t`. -/
structure Link where
  prev : Option Addr
  next : Option Addr
  deriving DecidableEq, Repr

/-- `wres_t`; `waitOnResource` is an address, zero when null. -/
structure WaitRes where
  waitOnResource : ℕ
  taskDelayTicks : ℕ
  deriving DecidableEq, Repr

/-- `helios_sched_tcb_t`. -/
structure Tcb where
  name : Option String
  priority : ℕ
  stackPtr : ℕ
  taskFunc : ℕ
  argsPtr : ℕ
  waitRes : WaitRes
  readyLink : Link
  waitLink : Link
  taskId : ℕ
  taskWdTicks : ℕ
  taskStatus : TaskStatus
  deriving DecidableEq, Repr

/-- A zero-filled control block. -/
def Tcb.zero : Tcb where
  name := none
  priority := 0
  stackPtr := 0
  taskFunc := 0
  argsPtr := 0
  waitRes := ⟨0, 0⟩
  readyLink := ⟨none, none⟩
  waitLink := ⟨none, none⟩
  taskId := 0
  taskWdTicks := 0
  taskStatus := .exit

namespace Tcb

/-- The pointers of one of the two lists. -/
def link (task : Tcb) : LinkType → Link
  | .wait => task.waitLink
  | .ready => task.readyLink

/-- Replace the pointers of one of the two lists. -/
def setLink (task : Tcb) (linkType : LinkType) (link : Link) : Tcb :=
  match linkType with
  | .wait => { task with waitLink := link }
  | .ready => { task with readyLink := link }

end Tcb

/-- Build options, the target's word size and the addresses the linker fixes. -/
structure HeliosConfig where
  /-- Bits of `size_t`. -/
  sizeBits : ℕ
  /-- Bits of `int`. -/
  intBits : ℕ
  /-- `HELIOS_ANTI_DEADLOCK`. -/
  antiDeadlock : Bool
  /-- `&_helios_idle_task_fn`. -/
  idleTaskFn : ℕ
  /-- `&g_sched_ctrl`. -/
  schedCtrl : ℕ
  /-- `HELIOS_IDLE_TASK_NAME`. -/
  idleTaskName : String
  /-- `HELIOS_IDLE_TASK_STACK_LEN`. -/
  idleTaskStackLen : ℕ
  /-- The C standard promises sixteen bits. -/
  sixteen_le_sizeBits : 16 ≤ sizeBits
  /-- And for `int`, too. -/
  sixteen_le_intBits : 16 ≤ intBits
  /-- A function has an address. -/
  idleTaskFn_ne_zero : idleTaskFn ≠ 0
  /-- The idle task is given a stack. -/
  idleTaskStackLen_ne_zero : idleTaskStackLen ≠ 0

namespace HeliosConfig

variable (cfg : HeliosConfig)

/-- One past `SIZE_MAX`. -/
def sizeMod : ℕ := 2 ^ cfg.sizeBits

/-- `HELIOS_DELAY_MAX`. -/
def delayMax : ℕ := cfg.sizeMod - 1

/-- `x - 1` on `size_t`. -/
def sizePred (x : ℕ) : ℕ := (x + cfg.delayMax) % cfg.sizeMod

/-- `x + 1` on `size_t`. -/
def sizeSucc (x : ℕ) : ℕ := (x + 1) % cfg.sizeMod

/-- `x - 1` on `int`. -/
def intPred (x : ℤ) : Run ℤ :=
  if x = -2 ^ (cfg.intBits - 1) then .fault .intOverflow else return x - 1

/-- `x + 1` on `int`. -/
def intSucc (x : ℤ) : Run ℤ :=
  if x = 2 ^ (cfg.intBits - 1) - 1 then .fault .intOverflow else return x + 1

end HeliosConfig

/-- A 32-bit target with the options that `build.mk` sets, but for the choice of
`HELIOS_ANTI_DEADLOCK`. -/
def defaultConfig (antiDeadlock : Bool) : HeliosConfig where
  sizeBits := 32
  intBits := 32
  antiDeadlock := antiDeadlock
  idleTaskFn := 0x20000000
  schedCtrl := 0x80000000
  idleTaskName := "HELIOS_IDLE"
  idleTaskStackLen := 255
  sixteen_le_sizeBits := by decide
  sixteen_le_intBits := by decide
  idleTaskFn_ne_zero := by decide
  idleTaskStackLen_ne_zero := by decide

/-- `g_sched_ctrl`, the control blocks, the id generator and the memory they refer to. -/
structure SchedState where
  /-- What each control block holds. -/
  tcb : Addr → Tcb
  readyListHead : Option Addr
  currTask : Option Addr
  waitListHead : Option Addr
  /-- `selected_sched`, null when unset. -/
  selectedSched : Option SchedAlgo
  /-- Whether `cb_hooks_reg.pre_sched` is set; it is only ever `_helios_pre_sched`. -/
  preSched : Bool
  /-- Whether `cb_hooks_reg.deadlock_notify` is set. -/
  deadlockNotify : Bool
  /-- The tasks reported to `deadlock_notify`, latest first. -/
  notified : List Addr
  /-- `__helios_task_id_gen`. -/
  taskIdGen : ℕ
  /-- The `int` found at the address of an awaited resource. -/
  resource : ℕ → ℤ
  /-- Blocks obtained from `helios_malloc` and not released. -/
  heapBlocks : List ℕ

namespace SchedState

variable (state : SchedState)

/-- Rewrite one control block. -/
def modify (addr : Addr) (change : Tcb → Tcb) : SchedState :=
  { state with tcb := Function.update state.tcb addr (change (state.tcb addr)) }

/-- `addr->link.next`. -/
def next (linkType : LinkType) (addr : Addr) : Option Addr :=
  ((state.tcb addr).link linkType).next

/-- `addr->link.prev`. -/
def prev (linkType : LinkType) (addr : Addr) : Option Addr :=
  ((state.tcb addr).link linkType).prev

/-- `addr->task_status`. -/
def status (addr : Addr) : TaskStatus := (state.tcb addr).taskStatus

/-- `addr->link.next = value`. -/
def setNext (linkType : LinkType) (addr : Addr) (value : Option Addr) : SchedState :=
  state.modify addr fun task =>
    task.setLink linkType { task.link linkType with next := value }

/-- `addr->link.prev = value`. -/
def setPrev (linkType : LinkType) (addr : Addr) (value : Option Addr) : SchedState :=
  state.modify addr fun task =>
    task.setLink linkType { task.link linkType with prev := value }

/-- `addr->task_status = value`. -/
def setStatus (addr : Addr) (value : TaskStatus) : SchedState :=
  state.modify addr fun task => { task with taskStatus := value }

/-- `addr->wait_res.task_delay_ticks = value`. -/
def setDelay (addr : Addr) (value : ℕ) : SchedState :=
  state.modify addr fun task =>
    { task with waitRes := { task.waitRes with taskDelayTicks := value } }

/-- `addr->wait_res.wait_on_resource = value`. -/
def setResource (addr : Addr) (value : ℕ) : SchedState :=
  state.modify addr fun task =>
    { task with waitRes := { task.waitRes with waitOnResource := value } }

end SchedState

/-- Follow a pointer. -/
def deref : Option Addr → Run Addr
  | some addr => .done addr
  | none => .fault .nullDeref

/-! ## List operations -/

/-- `_helios_sched_insert_after`; `ptr` is the value of `*ptr`, returned with its update. -/
def heliosSchedInsertAfter (ptr newNode : Option Addr) (linkType : LinkType)
    (state : SchedState) : Run (Status × Option Addr × SchedState) :=
  match newNode with
  | none => return (.errorFuncInvalArg, ptr, state)
  | some node =>
      match ptr with
      | none =>
          let state := state.setNext linkType node (some node)
          let state := state.setPrev linkType node (some node)
          return (.success, some node, state)
      | some ref => do
          let state := state.setNext linkType node (state.next linkType ref)
          let state := state.setPrev linkType node (some ref)
          let succ ← deref (state.next linkType node)
          let state := state.setPrev linkType succ (some node)
          return (.success, some ref, state.setNext linkType ref (some node))

/-- `_helios_sched_insert_before`; `ptr` is the value of `*ptr`, returned with its update. -/
def heliosSchedInsertBefore (ptr newNode : Option Addr) (linkType : LinkType)
    (state : SchedState) : Run (Status × Option Addr × SchedState) :=
  match newNode with
  | none => return (.errorFuncInvalArg, ptr, state)
  | some node =>
      match ptr with
      | none =>
          let state := state.setNext linkType node (some node)
          let state := state.setPrev linkType node (some node)
          return (.success, some node, state)
      | some ref => do
          let state := state.setNext linkType node (some ref)
          let state := state.setPrev linkType node (state.prev linkType ref)
          let state := state.setPrev linkType ref (some node)
          let pred ← deref (state.prev linkType node)
          return (.success, some ref, state.setNext linkType pred (some node))

/-- The pointer surgery common to both branches of `_helios_sched_node_detach`. -/
def unlink (linkType : LinkType) (node : Addr) (state : SchedState) : Run SchedState := do
  let pred ← deref (state.prev linkType node)
  let state := state.setNext linkType pred (state.next linkType node)
  let succ ← deref (state.next linkType node)
  let state := state.setPrev linkType succ (state.prev linkType node)
  let state := state.setNext linkType node none
  return state.setPrev linkType node none

/-- `_helios_sched_node_detach`.  The wait branch moves a detached head along its
*ready* link, as the source does. -/
def heliosSchedNodeDetach (nodePtr : Option Addr) (linkType : LinkType)
    (state : SchedState) : Run (Status × SchedState) :=
  match nodePtr with
  | none => return (.errorFuncInvalArg, state)
  | some node =>
      match linkType with
      | .wait => do
          let state :=
            if some node = state.waitListHead then
              { state with waitListHead := state.next .ready node }
            else state
          let state ← unlink .wait node state
          return (.success, state)
      | .ready => do
          let state :=
            if some node = state.readyListHead then
              { state with readyListHead := state.next .ready node }
            else state
          let state ← unlink .ready node state
          return (.success, state)

/-! ## Moving tasks between states -/

/-- The common body of `_helios_sched_send_to_wait` and `_helios_sched_send_to_pause`:
unless the task already has the target status, append it to the wait list. -/
def sendToWaitList (target : TaskStatus) (ticks : ℕ) (ptr : Option Addr)
    (state : SchedState) : Run SchedState := do
  let task ← deref ptr
  if state.status task = target then return state
  else
    let (result, head, state) ←
      heliosSchedInsertBefore state.waitListHead (some task) .wait state
    let state := { state with waitListHead := head }
    if result = .success then
      let state := state.setDelay task ticks
      return state.setStatus task target
    else return state

/-- `_helios_sched_send_to_wait`. -/
def heliosSchedSendToWait (ptr : Option Addr) (ticks : ℕ) (state : SchedState) :
    Run SchedState :=
  sendToWaitList .wait ticks ptr state

/-- `_helios_sched_send_to_pause`. -/
def heliosSchedSendToPause (cfg : HeliosConfig) (ptr : Option Addr) (state : SchedState) :
    Run SchedState :=
  sendToWaitList .pause cfg.delayMax ptr state

/-- `_helios_sched_send_to_resume`. -/
def heliosSchedSendToResume (ptr : Option Addr) (state : SchedState) : Run SchedState := do
  let task ← deref ptr
  if (state.status task).code < TaskStatus.wait.code then return state
  else
    let state :=
      if some task = state.waitListHead then
        -- the only member left empties the list
        if state.next .wait task = some task ∧ state.prev .wait task = some task then
          { state with waitListHead := none }
        else { state with waitListHead := state.next .wait task }
      else state
    let (_, state) ← heliosSchedNodeDetach (some task) .wait state
    let state := state.setDelay task 0
    return state.setStatus task .ready

/-- One turn of the search of `_helios_sched_send_back_of_task_prio`: the candidate
position and whether the node has a lower priority than every task seen so far. -/
def prioTurn (state : SchedState) (node : Addr) (cursor : Option Addr × Bool) :
    Run (Turn (Option Addr × Bool) (Option Addr × Bool)) := do
  let ref ← deref cursor.1
  if (state.tcb ref).priority ≤ (state.tcb node).priority then
    let succ := state.next .ready ref
    if succ = state.readyListHead then return .exit (succ, false)
    else return .next (succ, false)
  else return .exit cursor

/-- `_helios_sched_send_back_of_task_prio`. -/
def heliosSchedSendBackOfTaskPrio (fuel : ℕ) (nodePtr : Option Addr) (state : SchedState) :
    Run (Status × SchedState) :=
  match nodePtr with
  | none => return (.errorFuncInvalArg, state)
  | some node =>
      if state.readyListHead = none then return (.success, state)
      else if some node = state.readyListHead then return (.success, state)
      else do
        let (ref, leastPrio) ← loop (prioTurn state node) fuel (state.readyListHead, true)
        let state := if leastPrio then { state with readyListHead := some node } else state
        if state.next .ready node = state.prev .ready node then
          let (_, _, state) ← heliosSchedInsertBefore ref (some node) .ready state
          return (.success, state)
        else
          let (_, state) ← heliosSchedNodeDetach (some node) .ready state
          let (_, _, state) ← heliosSchedInsertBefore ref (some node) .ready state
          return (.success, state)

/-! ## The pre-scheduler -/

/-- The countdown of one waiting task: a tick less, and none once the resource is there. -/
def tickWaiting (cfg : HeliosConfig) (waitRes : ℕ) (task : Addr) (state : SchedState) :
    SchedState :=
  let state := state.setDelay task (cfg.sizePred (state.tcb task).waitRes.taskDelayTicks)
  if waitRes ≠ 0 ∧ 0 < state.resource waitRes then (state.setDelay task 0).setResource task 0
  else state

/-- A task whose countdown has ended is resumed. -/
def wakeIfDue (task : Addr) (state : SchedState) : Run SchedState :=
  if (state.tcb task).waitRes.taskDelayTicks = 0 then heliosSchedSendToResume (some task) state
  else return state

/-- One turn of `__helios_sched_wait_list_adjustment`.  `waitRes` is the resource of
the task that headed the list when the sweep began; a task that is not waiting is not
stepped over. -/
def sweepTurn (cfg : HeliosConfig) (waitRes : ℕ) (cursor : Option Addr × SchedState) :
    Run (Turn (Option Addr × SchedState) SchedState) :=
  match cursor with
  | (none, state) => return .exit state
  | (some task, state) =>
      if state.status task = .wait then do
        let state ← wakeIfDue task (tickWaiting cfg waitRes task state)
        if state.next .wait task = state.waitListHead then return .exit state
        else return .next (state.next .wait task, state)
      else return .next (some task, state)

/-- `__helios_sched_wait_list_adjustment`. -/
def heliosSchedWaitListAdjustment (cfg : HeliosConfig) (fuel : ℕ) (state : SchedState) :
    Run SchedState :=
  match state.waitListHead with
  | none => return state
  | some head =>
      loop (sweepTurn cfg (state.tcb head).waitRes.waitOnResource) fuel (some head, state)

/-- One turn of `__helios_sched_deadlock_adjustment_and_detection`, which never moves
on from the task it started at. -/
def deadlockTurn (cfg : HeliosConfig) (cursor : Option Addr × SchedState) :
    Run (Turn (Option Addr × SchedState) SchedState) :=
  match cursor with
  | (none, state) => return .exit state
  | (some task, state) =>
      let state :=
        if state.status task ≠ .pause then
          state.modify task fun block =>
            { block with taskWdTicks := cfg.sizePred block.taskWdTicks }
        else state
      let state :=
        if (state.tcb task).taskWdTicks = 0 ∧ state.deadlockNotify then
          { state.setStatus task .exit with notified := task :: state.notified }
        else state
      if state.next .ready task = state.readyListHead then return .exit state
      else return .next (some task, state)

/-- `__helios_sched_deadlock_adjustment_and_detection`. -/
def heliosSchedDeadlockAdjustmentAndDetection (cfg : HeliosConfig) (fuel : ℕ)
    (state : SchedState) : Run SchedState :=
  if cfg.antiDeadlock then loop (deadlockTurn cfg) fuel (state.readyListHead, state)
  else return state

/-- `_helios_pre_sched`. -/
def heliosPreSched (cfg : HeliosConfig) (fuel : ℕ) (state : SchedState) : Run SchedState := do
  let curr ← deref state.currTask
  let state := state.setStatus curr .ready
  let state ← heliosSchedWaitListAdjustment cfg fuel state
  let state ← heliosSchedDeadlockAdjustmentAndDetection cfg fuel state
  let (_, state) ← heliosSchedSendBackOfTaskPrio fuel state.currTask state
  return state

/-! ## Algorithms and despatch -/

/-- `__helios_sched_context_switch`. -/
def heliosSchedContextSwitch (nextTask : Option Addr) (state : SchedState) : Run SchedState := do
  let task ← deref nextTask
  return state.setStatus task .running

/-- The head of the ready list, taken for the idle task, is resumed. -/
def resumeIdle (ptr : Option Addr) (state : SchedState) : Run SchedState :=
  if ptr = state.readyListHead then heliosSchedSendToResume ptr state else return state

/-- `__helios_sched_algo_round_robin_fn`. -/
def heliosSchedAlgoRoundRobinFn (state : SchedState) : Run SchedState := do
  let curr ← deref state.currTask
  let ptr := state.next .ready curr
  let state ← resumeIdle ptr state
  let task ← deref ptr
  if state.status task = .ready then
    heliosSchedContextSwitch (state.next .ready task) state
  else return state

/-- One turn of the search of `__helios_sched_algo_priority_driven_fn`, which walks
back along the *wait* links, as the source does. -/
def priorityTurn (cursor : Option Addr × SchedState) :
    Run (Turn (Option Addr × SchedState) (Option Addr × SchedState)) := do
  let (ptr, state) := cursor
  let task ← deref ptr
  if state.status task = .ready then return .exit (ptr, state)
  else
    let ptr := state.prev .wait task
    if ptr = state.readyListHead then
      let state ← heliosSchedSendToResume ptr state
      return .exit (ptr, state)
    else return .next (ptr, state)

/-- `__helios_sched_algo_priority_driven_fn`. -/
def heliosSchedAlgoPriorityDrivenFn (fuel : ℕ) (state : SchedState) : Run SchedState := do
  let head ← deref state.readyListHead
  let ptr := state.prev .ready head
  if ptr = none then return state
  else
    let (ptr, state) ← loop priorityTurn fuel (ptr, state)
    heliosSchedContextSwitch ptr state

/-- The call through `selected_sched`. -/
def runSelectedSched (fuel : ℕ) (state : SchedState) : Run SchedState :=
  match state.selectedSched with
  | some .roundRobin => heliosSchedAlgoRoundRobinFn state
  | some .priorityDriven => heliosSchedAlgoPriorityDrivenFn fuel state
  | none => .fault .panic

/-- `_helios_scheduler_despatch`. -/
def heliosSchedulerDespatch (cfg : HeliosConfig) (fuel : ℕ) (state : SchedState) :
    Run SchedState :=
  if state.preSched then do
    let state ← heliosPreSched cfg fuel state
    runSelectedSched fuel state
  else .fault .panic

end Cyancore.Helios
