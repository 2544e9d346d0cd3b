/-
# The HELIOS task interface

`helios_tasks.c` in its dynamic configuration: adding, deleting, pausing and
resuming tasks, looking a task up by its handle, and starting the kernel.  What
`helios_malloc` answers is an argument of the functions that call it, so that a
statement can say what it assumes of the allocator.
-/

import Cyancore.Helios.Sched

namespace Cyancore.Helios

open Cyancore.Math

/-- `HELIOS_IDLE_TASK_PRIORITY`. -/
def heliosIdleTaskPriority : ℕ := 1

/-- `HELIOS_PRIORITY_MAX`. -/
def heliosPriorityMax : ℕ := 255

/-- What the caller passes to `helios_add_task` besides the handle; addresses are zero
when null. -/
structure TaskArgs where
  name : Option String
  taskFunc : ℕ
  args : ℕ
  priority : ℕ
  stackLen : ℕ
  deriving DecidableEq, Repr

/-- The assertions that open `helios_add_task`. -/
structure TaskArgs.Accepted (args : TaskArgs) : Prop where
  name : args.name ≠ none
  taskFunc : args.taskFunc ≠ 0
  stackLen : args.stackLen ≠ 0
  idle_le_priority : heliosIdleTaskPriority ≤ args.priority
  priority_lt_max : args.priority < heliosPriorityMax

instance (args : TaskArgs) : Decidable args.Accepted :=
  decidable_of_iff
    (args.name ≠ none ∧ args.taskFunc ≠ 0 ∧ args.stackLen ≠ 0 ∧
      heliosIdleTaskPriority ≤ args.priority ∧ args.priority < heliosPriorityMax)
    ⟨fun ⟨hname, hfunc, hstack, hidle, hmax⟩ => ⟨hname, hfunc, hstack, hidle, hmax⟩,
      fun h => ⟨h.name, h.taskFunc, h.stackLen, h.idle_le_priority, h.priority_lt_max⟩⟩

/-- The answers of `helios_malloc` to one `helios_add_task`. -/
structure TaskMemory where
  /-- The block for the control block, null when memory is low. -/
  block : Option Addr
  /-- What that block holds when it is handed out. -/
  contents : Tcb
  /-- The stack, zero when memory is low. -/
  stack : ℕ

/-! ## Pausing and resuming -/

/-- One turn of `helios_pause_all_task`; at the current task the loop continues
without moving on. -/
def pauseAllTurn (cfg : HeliosConfig) (cursor : Option Addr × SchedState) :
    Run (Turn (Option Addr × SchedState) SchedState) := do
  let (ptr, state) := cursor
  if ptr = state.currTask then return .next cursor
  else
    let state ← heliosSchedSendToPause cfg ptr state
    let task ← deref ptr
    let ptr := state.next .ready task
    if ptr = state.readyListHead then return .exit state
    else return .next (ptr, state)

/-- `helios_pause_all_task`. -/
def heliosPauseAllTask (cfg : HeliosConfig) (fuel : ℕ) (state : SchedState) :
    Run (Status × SchedState) :=
  if state.readyListHead = none then return (.success, state)
  else do
    let state ← loop (pauseAllTurn cfg) fuel (state.readyListHead, state)
    return (.success, state)

/-- One turn of `helios_resume_all_task`. -/
def resumeAllTurn (cursor : Option Addr × SchedState) :
    Run (Turn (Option Addr × SchedState) SchedState) := do
  let (ptr, state) := cursor
  let task ← deref ptr
  let ptr := state.next .ready task
  let state ← heliosSchedSendToResume ptr state
  if ptr = state.readyListHead then return .exit state
  else return .next (ptr, state)

/-- `helios_resume_all_task`. -/
def heliosResumeAllTask (fuel : ℕ) (state : SchedState) : Run (Status × SchedState) :=
  if state.readyListHead = none then return (.errorOsInvalidOp, state)
  else do
    let state ← loop resumeAllTurn fuel (state.readyListHead, state)
    return (.success, state)

/-! ## Adding a task -/

/-- `__helios_task_id_generate`; the generator is a `uint16_t`. -/
def heliosTaskIdGenerate (state : SchedState) : ℕ × SchedState :=
  let id := (state.taskIdGen + 1) % 2 ^ 16
  (id, { state with taskIdGen := id })

/-- Record a block that `helios_malloc` handed out. -/
def SchedState.claim (state : SchedState) (addr : ℕ) : SchedState :=
  { state with heapBlocks := addr :: state.heapBlocks }

/-- The details filled into a new control block. -/
def fillTcb (cfg : HeliosConfig) (args : TaskArgs) (block : Tcb) : Tcb :=
  { block with
    name := args.name
    priority := args.priority
    taskFunc := args.taskFunc
    argsPtr := args.args
    taskWdTicks := if cfg.antiDeadlock then cfg.delayMax else block.taskWdTicks }

/-- The first task ever added is a ready list of its own. -/
def linkFirst (task : Addr) (state : SchedState) : SchedState :=
  if state.readyListHead = none then
    { (state.setPrev .ready task (some task)).setNext .ready task (some task) with
      readyListHead := some task }
  else state

/-- `helios_add_task`; `handle` is the value of `*helios_task`, returned with its update. -/
def heliosAddTask (cfg : HeliosConfig) (fuel : ℕ) (handle : ℕ) (args : TaskArgs)
    (memory : TaskMemory) (state : SchedState) : Run (Status × ℕ × SchedState) :=
  if handle = 0 ∧ args.Accepted then do
    let (_, state) ← heliosPauseAllTask cfg fuel state
    match memory.block with
    | none =>
        let (_, state) ← heliosResumeAllTask fuel state
        return (.errorMemoryLow, handle, state)
    | some task =>
        let state := (state.claim task).modify task fun _ => memory.contents
        let state := state.modify task fun block => { block with stackPtr := memory.stack }
        if memory.stack = 0 then
          -- the control block is not released
          let (_, state) ← heliosResumeAllTask fuel state
          return (.errorMemoryLow, handle, state)
        else
          let state := state.claim memory.stack
          let state := state.modify task (fillTcb cfg args)
          let state := linkFirst task state
          let (_, state) ← heliosSchedSendBackOfTaskPrio fuel (some task) state
          let state := state.setStatus task .ready
          let (id, state) := heliosTaskIdGenerate state
          let state := state.modify task fun block => { block with taskId := id }
          let (_, state) ← heliosResumeAllTask fuel state
          return (.success, id, state)
  else return (.errorFuncInvalArg, handle, state)

/-! ## Handles -/

/-- One turn of the search of `__helios_get_tcb_using_task_id`; the loop ends before it
has tested the last task of the list. -/
def lookupTurn (taskId : ℕ) (state : SchedState) (ptr : Option Addr) :
    Run (Turn (Option Addr) (Option Addr)) := do
  let task ← deref ptr
  if state.next .ready task = state.readyListHead then return .exit none
  else if (state.tcb task).taskId = taskId then return .exit (some task)
  else return .next (state.next .ready task)

/-- `__helios_get_tcb_using_task_id`. -/
def heliosGetTcbUsingTaskId (fuel : ℕ) (taskId : ℕ) (state : SchedState) :
    Run (Option Addr) :=
  loop (lookupTurn taskId state) fuel state.readyListHead

/-- `helios_get_args`. -/
def heliosGetArgs (state : SchedState) : Run ℕ := do
  let curr ← deref state.currTask
  return (state.tcb curr).argsPtr

/-- `helios_get_curr_task_name`. -/
def heliosGetCurrTaskName (state : SchedState) : Run (Option String) := do
  let curr ← deref state.currTask
  return (state.tcb curr).name

/-- `helios_get_task_name`. -/
def heliosGetTaskName (fuel : ℕ) (handle : ℕ) (state : SchedState) : Run (Option String) := do
  match ← heliosGetTcbUsingTaskId fuel handle state with
  | some task => return (state.tcb task).name
  | none => return none

/-- `helios_task_yield`. -/
def heliosTaskYield (cfg : HeliosConfig) (fuel : ℕ) (state : SchedState) : Run SchedState :=
  heliosSchedulerDespatch cfg fuel state

/-- `helios_task_wait`. -/
def heliosTaskWait (cfg : HeliosConfig) (fuel : ℕ) (ticks : ℕ) (state : SchedState) :
    Run SchedState :=
  if 0 < ticks then do
    let state ← heliosSchedSendToWait state.currTask ticks state
    heliosTaskYield cfg fuel state
  else heliosTaskYield cfg fuel state

/-- What `helios_del_task` does to the task it resolved its handle to. -/
def deleteTcb (cfg : HeliosConfig) (fuel : ℕ) (ptr : Option Addr) (state : SchedState) :
    Run (Status × SchedState) := do
  let task ← deref ptr
  if (state.tcb task).taskFunc = cfg.idleTaskFn then return (.errorFuncInvalArg, state)
  else if some task = state.readyListHead then return (.errorOsInvalidOp, state)
  else
    let state := state.setStatus task .exit
    if some task = state.currTask then
      let state ← heliosTaskYield cfg fuel state
      return (.success, state)
    else return (.success, state)

/-- `helios_del_task`; a handle that is not found stands for the current task. -/
def heliosDelTask (cfg : HeliosConfig) (fuel : ℕ) (handle : ℕ) (state : SchedState) :
    Run (Status × SchedState) := do
  let found ← heliosGetTcbUsingTaskId fuel handle state
  let ptr := if found = none then state.currTask else found
  deleteTcb cfg fuel ptr state

/-- What `helios_pause_task` does to the task it resolved its handle to. -/
def pauseTcb (cfg : HeliosConfig) (ptr : Option Addr) (state : SchedState) :
    Run (Status × SchedState) := do
  let state ← heliosSchedSendToPause cfg ptr state
  return (.success, state)

/-- `helios_pause_task`; a handle that is not found stands for the current task. -/
def heliosPauseTask (cfg : HeliosConfig) (fuel : ℕ) (handle : ℕ) (state : SchedState) :
    Run (Status × SchedState) := do
  let found ← heliosGetTcbUsingTaskId fuel handle state
  let ptr := if found = none then state.currTask else found
  pauseTcb cfg ptr state

/-- What `helios_resume_task` does to the task it resolved its handle to; a paused task
is the one it refuses. -/
def resumeTcb (task : Addr) (state : SchedState) : Run (Status × SchedState) :=
  if state.status task ≠ .pause then do
    let state ← heliosSchedSendToResume (some task) state
    return (.success, state)
  else return (.errorOsInvalidOp, state)

/-- `helios_resume_task`. -/
def heliosResumeTask (fuel : ℕ) (handle : ℕ) (state : SchedState) :
    Run (Status × SchedState) := do
  match ← heliosGetTcbUsingTaskId fuel handle state with
  | some task => resumeTcb task state
  | none => return (.errorFuncInvalArg, state)

/-! ## Starting the kernel -/

/-- `helios_set_sched_algo`, whose argument is one of the two algorithms. -/
def heliosSetSchedAlgo (algo : SchedAlgo) (state : SchedState) : Status × SchedState :=
  (.success, { state with selectedSched := some algo })

/-- `g_sched_ctrl` and the id generator as the dynamic configuration initialises them. -/
def bootState (tcb : Addr → Tcb) (resource : ℕ → ℤ) (heapBlocks : List ℕ) : SchedState where
  tcb := tcb
  readyListHead := none
  currTask := none
  waitListHead := none
  selectedSched := some .roundRobin
  preSched := false
  deadlockNotify := false
  notified := []
  taskIdGen := 0
  resource := resource
  heapBlocks := heapBlocks

/-- `__helios_init_scheduler`. -/
def heliosInitScheduler (state : SchedState) : SchedState :=
  { state with preSched := true, currTask := state.readyListHead }

/-- What `helios_run` passes to `helios_add_task`. -/
def idleTaskArgs (cfg : HeliosConfig) : TaskArgs where
  name := some cfg.idleTaskName
  taskFunc := cfg.idleTaskFn
  args := cfg.schedCtrl
  priority := heliosIdleTaskPriority
  stackLen := cfg.idleTaskStackLen

/-- `helios_run` up to its first yield: add the idle task, whatever that returns, and
initialise the scheduler.  `handle` is `helios_idle_task`. -/
def heliosRunInit (cfg : HeliosConfig) (fuel : ℕ) (handle : ℕ) (memory : TaskMemory)
    (state : SchedState) : Run (ℕ × SchedState) := do
  let (_, handle, state) ← heliosAddTask cfg fuel handle (idleTaskArgs cfg) memory state
  return (handle, heliosInitScheduler state)

/-- `helios_run`, which panics when its yield comes back. -/
def heliosRun (cfg : HeliosConfig) (fuel : ℕ) (handle : ℕ) (memory : TaskMemory)
    (state : SchedState) : Run Empty := do
  let (_, state) ← heliosRunInit cfg fuel handle memory state
  let _ ← heliosTaskYield cfg fuel state
  .fault .panic

end Cyancore.Helios
