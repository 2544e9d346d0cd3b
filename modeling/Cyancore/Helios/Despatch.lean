/-
# Which task runs

`_helios_scheduler_despatch` ends by marking a task as running, but nothing ever
makes that task the current one: `curr_task` keeps the value that `helios_run` gave
it, the head of the ready list, and so the rotation of the pre-scheduler leaves the
ready list as it was.  This module follows every kernel call along that observation
and says for which task sets and algorithms the task marked running is the current
one.
-/

import Cyancore.Helios.Handles
import Cyancore.Helios.Wake

namespace Cyancore.Helios

open Cyancore.Math

variable {cfg : HeliosConfig} {state state' state'' : SchedState}

/-! ## Calls that start no task -/

/-- The later state has the same ready list, current task and algorithm, and runs no task
that the earlier one did not. -/
structure Calm (state state' : SchedState) : Prop where
  links : state'.links .ready = state.links .ready
  head : state'.readyListHead = state.readyListHead
  curr : state'.currTask = state.currTask
  algo : state'.selectedSched = state.selectedSched
  running : ∀ task, state'.status task = .running → state.status task = .running

namespace Calm

theorem refl (state : SchedState) : Calm state state := ⟨rfl, rfl, rfl, rfl, fun _ => id⟩

theorem trans (hfirst : Calm state state') (hsecond : Calm state' state'') :
    Calm state state'' where
  links := hsecond.links.trans hfirst.links
  head := hsecond.head.trans hfirst.head
  curr := hsecond.curr.trans hfirst.curr
  algo := hsecond.algo.trans hfirst.algo
  running := fun task h => hfirst.running task (hsecond.running task h)

theorem of_frame (hframe : state'.frame = state.frame)
    (hrunning : ∀ task, state'.status task = .running → state.status task = .running) :
    Calm state state' where
  links := SchedState.links_ready_of_frame hframe
  head := SchedState.readyListHead_of_frame hframe
  curr := SchedState.currTask_of_frame hframe
  algo := congrArg (fun s => s.selectedSched) hframe
  running := hrunning

theorem setStatus (state : SchedState) (task : Addr) {value : TaskStatus}
    (hvalue : value ≠ .running) : Calm state (state.setStatus task value) := by
  refine of_frame (by simp) fun other h => ?_
  rw [SchedState.status_setStatus, Function.update_apply] at h
  split at h
  · exact absurd h hvalue
  · exact h

theorem sendToWaitList {target : TaskStatus} (htarget : target ≠ .running) {ticks : ℕ}
    {ptr : Option Addr} (hrun : sendToWaitList target ticks ptr state = .done state') :
    Calm state state' := by
  obtain ⟨task, hptr, -⟩ := Outcome.bind_eq_done_iff.mp hrun
  cases ptr with
  | none => simp [deref] at hptr
  | some task =>
      obtain ⟨hframe, hsame | hset⟩ := frame_of_sendToWaitList hrun
      · exact of_frame hframe (by simp [hsame])
      · refine of_frame hframe fun other h => ?_
        rw [hset, Function.update_apply] at h
        split at h
        · exact absurd h htarget
        · exact h

theorem sendToResume {ptr : Option Addr}
    (hrun : heliosSchedSendToResume ptr state = .done state') : Calm state state' := by
  obtain ⟨task, hptr, -⟩ := Outcome.bind_eq_done_iff.mp hrun
  cases ptr with
  | none => simp [deref] at hptr
  | some task =>
      obtain ⟨hframe, hset⟩ := frame_of_sendToResume hrun
      refine of_frame hframe fun other h => ?_
      rw [hset, Function.update_apply] at h
      split at h
      · next heq => exact heq ▸ TaskStatus.eq_running_of_resumed h
      · exact h

/-- A loop whose turns start no task starts none. -/
theorem loop {cursor : Type} {body : cursor × SchedState →
      Run (Turn (cursor × SchedState) SchedState)}
    (hnext : ∀ ptr state ptr' state',
      body (ptr, state) = .done (.next (ptr', state')) → Calm state state')
    (hexit : ∀ ptr state state', body (ptr, state) = .done (.exit state') → Calm state state')
    {fuel : ℕ} {ptr : cursor} (hrun : Math.loop body fuel (ptr, state) = .done state') :
    Calm state state' := by
  refine @loop_invariant _ _ _ body (fun cursor => Calm state cursor.2) (Calm state)
    ?_ ?_ (ptr, state) (refl state) fuel state' hrun
  · rintro ⟨ptr, before⟩ ⟨ptr', after⟩ hbefore hturn
    exact hbefore.trans (hnext _ _ _ _ hturn)
  · rintro ⟨ptr, before⟩ after hbefore hturn
    exact hbefore.trans (hexit _ _ _ hturn)

end Calm

/-! ## The pre-scheduler -/

/-- Wake-ups start no task. -/
theorem Wakes.calm (hwakes : Wakes cfg state state') : Calm state state' := by
  induction hwakes with
  | refl => exact Calm.refl state
  | tick _ waitRes hwait ih => exact ih.trans (Calm.of_frame frame_tickWaiting (by simp))
  | resume _ hrun ih => exact ih.trans (Calm.sendToResume hrun)

/-- A rewrite of a block that keeps its ready pointers and its status starts no task. -/
theorem Calm.modify (addr : Addr) {change : Tcb → Tcb}
    (hlink : ∀ task, (change task).link .ready = task.link .ready)
    (hstatus : ∀ task, (change task).taskStatus = task.taskStatus) :
    Calm state (state.modify addr change) := by
  refine ⟨SchedState.links_modify _ _ _ _ hlink, rfl, rfl, rfl, fun task h => ?_⟩
  rwa [SchedState.status, SchedState.read_modify state addr change Tcb.taskStatus hstatus] at h

/-- The watchdog of one task: count down, and end the task when the count is out. -/
theorem deadlockTurn_eq (cfg : HeliosConfig) (task : Addr) (state : SchedState) :
    ∃ checked, Calm state checked ∧
      deadlockTurn cfg (some task, state) =
        .done (if state.next .ready task = state.readyListHead then .exit checked
          else .next (some task, checked)) := by
  rw [deadlockTurn]
  generalize hcounted : (if state.status task ≠ .pause then
      state.modify task fun block =>
        { block with taskWdTicks := cfg.sizePred block.taskWdTicks }
    else state) = counted
  have hcalm : Calm state counted := by
    rw [← hcounted]
    split
    · exact Calm.modify task (fun _ => rfl) fun _ => rfl
    · exact Calm.refl state
  generalize hchecked : (if (counted.tcb task).taskWdTicks = 0 ∧ counted.deadlockNotify then
      { counted.setStatus task .exit with notified := task :: counted.notified }
    else counted) = checked
  have hcalm' : Calm state checked := by
    rw [← hchecked]
    split
    · have hexit := hcalm.trans (@Calm.setStatus counted task .exit (by simp))
      exact ⟨hexit.links, hexit.head, hexit.curr, hexit.algo, hexit.running⟩
    · exact hcalm
  have hnext : checked.next .ready task = state.next .ready task :=
    congrFun (congrArg Links.next hcalm'.links) task
  refine ⟨checked, hcalm', ?_⟩
  rw [hnext, hcalm'.head]
  split
  · rfl
  · rfl

theorem calm_deadlockAdjustment {fuel : ℕ}
    (hrun : heliosSchedDeadlockAdjustmentAndDetection cfg fuel state = .done state') :
    Calm state state' := by
  rw [heliosSchedDeadlockAdjustmentAndDetection] at hrun
  split at hrun
  · refine Calm.loop ?_ ?_ hrun
    · intro ptr before ptr' after hturn
      cases ptr with
      | none => simp [deadlockTurn] at hturn
      | some task =>
          obtain ⟨checked, hcalm, heq⟩ := deadlockTurn_eq cfg task before
          rw [heq, Outcome.done.injEq] at hturn
          split at hturn
          · simp at hturn
          · simp only [Turn.next.injEq, Prod.mk.injEq] at hturn
            exact hturn.2 ▸ hcalm
    · intro ptr before after hturn
      cases ptr with
      | none =>
          obtain rfl : before = after := by simpa [deadlockTurn] using hturn
          exact Calm.refl before
      | some task =>
          obtain ⟨checked, hcalm, heq⟩ := deadlockTurn_eq cfg task before
          rw [heq, Outcome.done.injEq] at hturn
          split at hturn
          · exact Turn.exit.inj hturn ▸ hcalm
          · simp at hturn
  · exact Outcome.done.inj hrun ▸ Calm.refl state

/-- With two or more tasks the watchdog never gets past the head of the ready list. -/
theorem diverges_deadlockAdjustment (hoption : cfg.antiDeadlock = true) {head : Addr}
    (hhead : state.readyListHead = some head)
    (hnext : state.next .ready head ≠ state.readyListHead) :
    Diverges fun fuel => heliosSchedDeadlockAdjustmentAndDetection cfg fuel state := by
  have hspin : Diverges fun fuel => loop (deadlockTurn cfg) fuel (some head, state) := by
    refine @diverges_loop _ _ _ _
      (fun cursor => cursor.1 = some head ∧ Calm state cursor.2) ?_ _ ⟨rfl, Calm.refl state⟩
    rintro ⟨ptr, before⟩ ⟨rfl, hbefore⟩
    have hnext' : before.next .ready head ≠ before.readyListHead := by
      rw [hbefore.head, show before.next .ready head = state.next .ready head from
        congrFun (congrArg Links.next hbefore.links) head]
      exact hnext
    obtain ⟨checked, hcalm, heq⟩ := deadlockTurn_eq cfg head before
    rw [if_neg hnext'] at heq
    exact ⟨_, heq, rfl, hbefore.trans hcalm⟩
  intro fuel
  show heliosSchedDeadlockAdjustmentAndDetection cfg fuel state = .spin
  rw [heliosSchedDeadlockAdjustmentAndDetection, if_pos hoption, hhead]
  exact hspin fuel

/-- The pre-scheduler starts no task while the current task heads the ready list, and it
returns only if the watchdog is off or has just one task to look at. -/
theorem calm_preSched {fuel : ℕ} {head : Addr} (hcurr : state.currTask = some head)
    (hhead : state.readyListHead = some head)
    (hrun : heliosPreSched cfg fuel state = .done state') :
    Calm state state' ∧ (cfg.antiDeadlock = true → state.next .ready head = some head) := by
  rw [heliosPreSched, hcurr] at hrun
  simp only [deref_some, Outcome.done_bind] at hrun
  obtain ⟨swept, hsweep, hrun⟩ := Outcome.bind_eq_done_iff.mp hrun
  obtain ⟨checked, hcheck, hrun⟩ := Outcome.bind_eq_done_iff.mp hrun
  have hswept : Calm state swept :=
    (Calm.setStatus state head (by simp)).trans (wakes_waitListAdjustment hsweep).calm
  have hchecked : Calm state checked := hswept.trans (calm_deadlockAdjustment hcheck)
  have hback : heliosSchedSendBackOfTaskPrio fuel checked.currTask checked =
      .done (.success, checked) := by
    simp [heliosSchedSendBackOfTaskPrio, hchecked.curr, hchecked.head, hcurr, hhead]
  rw [hback] at hrun
  obtain rfl := Outcome.done.inj hrun
  refine ⟨hchecked, fun hoption => ?_⟩
  by_contra hnext
  have hspin := @diverges_deadlockAdjustment cfg swept hoption head (hswept.head.trans hhead) (by
    rw [hswept.head, hhead, show swept.next .ready head = state.next .ready head from
      congrFun (congrArg Links.next hswept.links) head]
    exact hnext)
  exact hspin.not_returns _ ⟨fuel, hcheck⟩

/-! ## The despatch -/

/-- A despatch marks at most one task, and under round robin the second after the current
one; with the watchdog on it only returns when there is just one task. -/
theorem despatch_cases {fuel : ℕ} {head : Addr} (hcurr : state.currTask = some head)
    (hhead : state.readyListHead = some head)
    (hrun : heliosSchedulerDespatch cfg fuel state = .done state') :
    (cfg.antiDeadlock = true → state.next .ready head = some head) ∧
      ∃ calm, Calm state calm ∧
        (state' = calm ∨ ∃ task, state' = calm.setStatus task .running ∧
          (state.selectedSched = some .roundRobin →
            ∃ succ, state.next .ready head = some succ ∧ state.next .ready succ = some task)) := by
  rw [heliosSchedulerDespatch] at hrun
  split at hrun
  · obtain ⟨prepared, hpre, hrun⟩ := Outcome.bind_eq_done_iff.mp hrun
    obtain ⟨hcalm, hoption⟩ := calm_preSched hcurr hhead hpre
    refine ⟨hoption, ?_⟩
    rw [runSelectedSched, hcalm.algo] at hrun
    have hnext : prepared.next .ready = state.next .ready := congrArg Links.next hcalm.links
    split at hrun
    · obtain ⟨resumed, hresumed, rfl | ⟨curr, succ, task, hcurr', hsucc, htask, rfl⟩⟩ :=
        roundRobin_cases cfg hrun
      · exact ⟨_, hcalm.trans hresumed.calm, .inl rfl⟩
      · obtain rfl : curr = head :=
          Option.some.inj (hcurr'.symm.trans (hcalm.curr.trans hcurr))
        rw [hnext] at hsucc htask
        exact ⟨_, hcalm.trans hresumed.calm, .inr ⟨task, rfl, fun _ => ⟨succ, hsucc, htask⟩⟩⟩
    · next halgo =>
        obtain ⟨searched, hsearched, rfl | ⟨task, rfl⟩⟩ := priorityDriven_cases cfg hrun
        · exact ⟨_, hcalm.trans hsearched.calm, .inl rfl⟩
        · exact ⟨_, hcalm.trans hsearched.calm, .inr ⟨task, rfl, by simp [halgo]⟩⟩
    · simp at hrun
  · simp at hrun

/-! ## The task interface -/

theorem calm_pauseAllTurn {ptr : Option Addr} {turn : Turn (Option Addr × SchedState) SchedState}
    (hrun : pauseAllTurn cfg (ptr, state) = .done turn) :
    (∀ ptr' state', turn = .next (ptr', state') → Calm state state') ∧
      ∀ state', turn = .exit state' → Calm state state' := by
  rw [pauseAllTurn] at hrun
  dsimp only at hrun
  split at hrun
  · obtain rfl := Outcome.done.inj hrun
    simp [Calm.refl]
  · obtain ⟨paused, hpause, hrun⟩ := Outcome.bind_eq_done_iff.mp hrun
    obtain ⟨task, -, hrun⟩ := Outcome.bind_eq_done_iff.mp hrun
    have hcalm : Calm state paused := Calm.sendToWaitList (by simp) hpause
    split at hrun
    · obtain rfl := Outcome.done.inj hrun
      simp [hcalm]
    · obtain rfl := Outcome.done.inj hrun
      simp [hcalm]

theorem calm_resumeAllTurn {ptr : Option Addr}
    {turn : Turn (Option Addr × SchedState) SchedState}
    (hrun : resumeAllTurn (ptr, state) = .done turn) :
    (∀ ptr' state', turn = .next (ptr', state') → Calm state state') ∧
      ∀ state', turn = .exit state' → Calm state state' := by
  rw [resumeAllTurn] at hrun
  dsimp only at hrun
  obtain ⟨task, -, hrun⟩ := Outcome.bind_eq_done_iff.mp hrun
  obtain ⟨resumed, hresume, hrun⟩ := Outcome.bind_eq_done_iff.mp hrun
  have hcalm : Calm state resumed := Calm.sendToResume hresume
  split at hrun
  · obtain rfl := Outcome.done.inj hrun
    simp [hcalm]
  · obtain rfl := Outcome.done.inj hrun
    simp [hcalm]

/-- A deletion never yields: the current task heads the ready list, and that task is not
deleted. -/
theorem calm_deleteTcb {fuel : ℕ} {ptr : Option Addr} {result : Status × SchedState}
    (hcurr : state.currTask = state.readyListHead)
    (hrun : deleteTcb cfg fuel ptr state = .done result) : Calm state result.2 := by
  rw [deleteTcb] at hrun
  obtain ⟨task, -, hrun⟩ := Outcome.bind_eq_done_iff.mp hrun
  by_cases hidle : (state.tcb task).taskFunc = cfg.idleTaskFn
  · rw [if_pos hidle] at hrun
    exact Outcome.done.inj hrun ▸ Calm.refl state
  by_cases hhead : some task = state.readyListHead
  · rw [if_neg hidle, if_pos hhead] at hrun
    exact Outcome.done.inj hrun ▸ Calm.refl state
  have hother : some task ≠ (state.setStatus task .exit).currTask := fun h =>
    hhead (h.trans hcurr)
  rw [if_neg hidle, if_neg hhead] at hrun
  simp only [if_neg hother] at hrun
  exact Outcome.done.inj hrun ▸ Calm.setStatus state task (by simp)

/-- A call of the kernel by its tasks. -/
inductive KernelOp
  | despatch
  | taskWait (ticks : ℕ)
  | pauseTask (handle : ℕ)
  | pauseAllTask
  | resumeTask (handle : ℕ)
  | resumeAllTask
  | delTask (handle : ℕ)
  deriving DecidableEq, Repr

/-- What a call does to the kernel, its status code aside. -/
def KernelOp.run (cfg : HeliosConfig) (fuel : ℕ) (op : KernelOp) (state : SchedState) :
    Run SchedState :=
  match op with
  | .despatch => heliosSchedulerDespatch cfg fuel state
  | .taskWait ticks => heliosTaskWait cfg fuel ticks state
  | .pauseTask handle => do return (← heliosPauseTask cfg fuel handle state).2
  | .pauseAllTask => do return (← heliosPauseAllTask cfg fuel state).2
  | .resumeTask handle => do return (← heliosResumeTask fuel handle state).2
  | .resumeAllTask => do return (← heliosResumeAllTask fuel state).2
  | .delTask handle => do return (← heliosDelTask cfg fuel handle state).2

/-- The calls that end with a despatch.  `helios_del_task` despatches only when it deletes the
current task, which it never does. -/
def KernelOp.Despatches : KernelOp → Prop
  | .despatch => True
  | .taskWait _ => True
  | _ => False

/-- Calls that do not end with a despatch start no task. -/
theorem calm_run_of_not_despatches {op : KernelOp} (hop : ¬ op.Despatches) {fuel : ℕ}
    (hcurr : state.currTask = state.readyListHead) (hrun : op.run cfg fuel state = .done state') :
    Calm state state' := by
  cases op with
  | despatch => exact absurd trivial hop
  | taskWait ticks => exact absurd trivial hop
  | pauseTask handle =>
      obtain ⟨result, hpause, hrun⟩ := Outcome.bind_eq_done_iff.mp hrun
      obtain rfl := Outcome.done.inj hrun
      obtain ⟨found, -, hpause⟩ := Outcome.bind_eq_done_iff.mp hpause
      obtain ⟨paused, hsend, hpause⟩ := Outcome.bind_eq_done_iff.mp hpause
      obtain rfl := Outcome.done.inj hpause
      exact Calm.sendToWaitList (by simp) hsend
  | pauseAllTask =>
      obtain ⟨result, hpause, hrun⟩ := Outcome.bind_eq_done_iff.mp hrun
      obtain rfl := Outcome.done.inj hrun
      rw [heliosPauseAllTask] at hpause
      split at hpause
      · exact Outcome.done.inj hpause ▸ Calm.refl state
      · obtain ⟨paused, hloop, hpause⟩ := Outcome.bind_eq_done_iff.mp hpause
        obtain rfl := Outcome.done.inj hpause
        exact Calm.loop (fun _ _ _ _ hturn => (calm_pauseAllTurn hturn).1 _ _ rfl)
          (fun _ _ _ hturn => (calm_pauseAllTurn hturn).2 _ rfl) hloop
  | resumeTask handle =>
      obtain ⟨result, hresume, hrun⟩ := Outcome.bind_eq_done_iff.mp hrun
      obtain rfl := Outcome.done.inj hrun
      obtain ⟨found, -, hresume⟩ := Outcome.bind_eq_done_iff.mp hresume
      cases found with
      | none => exact Outcome.done.inj hresume ▸ Calm.refl state
      | some task =>
          simp only [resumeTcb] at hresume
          split at hresume
          · obtain ⟨resumed, hsend, hresume⟩ := Outcome.bind_eq_done_iff.mp hresume
            obtain rfl := Outcome.done.inj hresume
            exact Calm.sendToResume hsend
          · exact Outcome.done.inj hresume ▸ Calm.refl state
  | resumeAllTask =>
      obtain ⟨result, hresume, hrun⟩ := Outcome.bind_eq_done_iff.mp hrun
      obtain rfl := Outcome.done.inj hrun
      rw [heliosResumeAllTask] at hresume
      split at hresume
      · exact Outcome.done.inj hresume ▸ Calm.refl state
      · obtain ⟨resumed, hloop, hresume⟩ := Outcome.bind_eq_done_iff.mp hresume
        obtain rfl := Outcome.done.inj hresume
        exact Calm.loop (fun _ _ _ _ hturn => (calm_resumeAllTurn hturn).1 _ _ rfl)
          (fun _ _ _ hturn => (calm_resumeAllTurn hturn).2 _ rfl) hloop
  | delTask handle =>
      obtain ⟨result, hdelete, hrun⟩ := Outcome.bind_eq_done_iff.mp hrun
      obtain rfl := Outcome.done.inj hrun
      obtain ⟨found, -, hdelete⟩ := Outcome.bind_eq_done_iff.mp hdelete
      exact calm_deleteTcb hcurr hdelete

/-- A call that ends with a despatch starts no task before it. -/
theorem exists_despatch_of_despatches {op : KernelOp} (hop : op.Despatches) {fuel : ℕ}
    (hrun : op.run cfg fuel state = .done state') :
    ∃ before, Calm state before ∧ heliosSchedulerDespatch cfg fuel before = .done state' := by
  cases op with
  | despatch => exact ⟨state, Calm.refl state, hrun⟩
  | taskWait ticks =>
      simp only [KernelOp.run, heliosTaskWait, heliosTaskYield] at hrun
      split at hrun
      · obtain ⟨sent, hsend, hrun⟩ := Outcome.bind_eq_done_iff.mp hrun
        exact ⟨sent, Calm.sendToWaitList (by simp) hsend, hrun⟩
      · exact ⟨state, Calm.refl state, hrun⟩
  | pauseTask handle => exact absurd hop id
  | pauseAllTask => exact absurd hop id
  | resumeTask handle => exact absurd hop id
  | resumeAllTask => exact absurd hop id
  | delTask handle => exact absurd hop id

/-! ## Runs of the kernel -/

/-- The kernel as `helios_run` leaves it before its first yield, after the listed additions
and with the given algorithm. -/
def KernelStarted (cfg : HeliosConfig) (algo : SchedAlgo) (calls : List AddCall)
    (state : SchedState) : Prop :=
  ∃ (boot : SchedState) (idle : AddCall) (handle : ℕ), BootRun cfg calls boot ∧
    idle.args = idleTaskArgs cfg ∧ idle.block ∉ boot.heapBlocks ∧
    Returns (fun fuel => heliosRunInit cfg fuel 0 idle.memory (heliosSetSchedAlgo algo boot).2)
      (handle, state)

/-- Kernel calls from a given state on; a call that does not return has no successor. -/
def kernelSystem (cfg : HeliosConfig) (start : SchedState) :
    TransitionSystem SchedState KernelOp where
  init state := state = start
  step op state state' := Returns (fun fuel => op.run cfg fuel state) state'

/-- The task is on the ready list. -/
def OnReadyList (state : SchedState) (task : Addr) : Prop :=
  ∃ queue, state.ListIs .ready queue ∧ task ∈ queue

/-- In every state the kernel reaches at most one task of the ready list is running, and right
after a despatch it is the current task. -/
structure SingleRunning (cfg : HeliosConfig) (start : SchedState) : Prop where
  single : ∀ state, (kernelSystem cfg start).Reachable (fun _ _ => True) state →
    ∀ first second, OnReadyList state first → OnReadyList state second →
      state.status first = .running → state.status second = .running → first = second
  current : ∀ state, (kernelSystem cfg start).Reachable (fun _ _ => True) state →
    ∀ op state', KernelOp.Despatches op → (kernelSystem cfg start).step op state state' →
      ∀ task, OnReadyList state' task → state'.status task = .running →
        state'.currTask = some task

/-- What the kernel starts with. -/
structure StartInv (algo : SchedAlgo) (queue : List Addr) (state : SchedState) : Prop where
  list : state.ListIs .ready queue
  curr : state.currTask = state.readyListHead
  algo : state.selectedSched = some algo
  preSched : state.preSched = true
  wait : state.waitListHead = none
  status : ∀ task ∈ queue, state.status task = .ready

theorem BootInv.setSchedAlgo {calls : List AddCall} (hinv : BootInv calls state)
    (algo : SchedAlgo) : BootInv calls (heliosSetSchedAlgo algo state).2 := by
  obtain ⟨queue, hready⟩ := hinv.ready
  exact ⟨⟨queue, ⟨hready.list.ring, hready.list.head⟩, hready.perm, hready.sorted, hready.stable⟩,
    ⟨hinv.wait.ring, hinv.wait.head⟩, hinv.curr, hinv.status, hinv.priority, hinv.ids,
    hinv.taskIdGen, hinv.blocks⟩

theorem startInv_of_kernelStarted {algo : SchedAlgo} {calls : List AddCall}
    (hstart : KernelStarted cfg algo calls state) :
    ∃ queue, queue.length = calls.length + 1 ∧ StartInv algo queue state := by
  obtain ⟨boot, idle, handle, hboot, hidle, hunused, hreturns⟩ := hstart
  obtain ⟨after, hafter, halgo, hreturns'⟩ :=
    returns_runInit ((bootInv_of_bootRun hboot).setSchedAlgo algo) hidle hunused
  have heq := hreturns'.unique (fuelMono_runInit _ _ _ _) hreturns
  obtain rfl := congrArg Prod.snd heq
  obtain ⟨queue, hready⟩ := hafter.ready
  refine ⟨queue, ?_, ⟨hready.list.ring, hready.list.head⟩, rfl, halgo, rfl, hafter.wait.head,
    fun task htask => hafter.status_of_mem hready htask⟩
  simpa using hready.perm.length_eq

/-! ## When the running task is the current one -/

/-- The task sets and options for which a despatch that returns can only mark the current
task: the watchdog keeps every other despatch from returning, a lone task is followed by
itself, and round robin over two tasks comes back to the first. -/
def MarksCurrent (cfg : HeliosConfig) (algo : SchedAlgo) (others : ℕ) : Prop :=
  cfg.antiDeadlock = true ∨ others = 0 ∨ (others = 1 ∧ algo = .roundRobin)

/-- The invariant of these kernels: the ready list, the current task and the algorithm are
those of the start, and no task but the current one runs. -/
structure RunInv (algo : SchedAlgo) (queue : List Addr) (state : SchedState) : Prop where
  list : state.ListIs .ready queue
  curr : state.currTask = state.readyListHead
  algo : state.selectedSched = some algo
  running : ∀ task ∈ queue, state.status task = .running → state.currTask = some task

theorem RunInv.of_calm {algo : SchedAlgo} {queue : List Addr} (hinv : RunInv algo queue state)
    (hcalm : Calm state state') : RunInv algo queue state' where
  list := ⟨hcalm.links ▸ hinv.list.ring, hcalm.head.trans hinv.list.head⟩
  curr := by rw [hcalm.curr, hcalm.head, hinv.curr]
  algo := hcalm.algo.trans hinv.algo
  running := fun task htask h => by
    rw [hcalm.curr]
    exact hinv.running task htask (hcalm.running task h)

/-- A despatch in such a kernel keeps the invariant. -/
theorem RunInv.despatch {algo : SchedAlgo} {queue : List Addr} {others fuel : ℕ}
    (hmarks : MarksCurrent cfg algo others) (hlength : queue.length = others + 1)
    (hinv : RunInv algo queue state)
    (hrun : heliosSchedulerDespatch cfg fuel state = .done state') : RunInv algo queue state' := by
  obtain ⟨head, rest, rfl⟩ := List.exists_cons_of_length_eq_add_one hlength
  have hhead : state.readyListHead = some head := hinv.list.head
  have hcurr : state.currTask = some head := hinv.curr.trans hhead
  obtain ⟨hoption, calm, hcalm, hcases⟩ := despatch_cases hcurr hhead hrun
  have hcalm' : RunInv algo (head :: rest) calm := hinv.of_calm hcalm
  rcases hcases with rfl | ⟨task, rfl, hmarked⟩
  · exact hcalm'
  have hcurr' : calm.currTask = some head := hcalm.curr.trans hcurr
  -- the task marked running is the head, or the head is the only task there is
  have htask : ∀ other ∈ head :: rest, other = task → other = head := by
    intro other hother heq
    cases rest with
    | nil => exact List.mem_singleton.mp hother
    | cons succ rest =>
        obtain ⟨hnext, hne, hwalk⟩ := hinv.list.readyWalk (by simp)
        rcases hmarks with hwatchdog | rfl | ⟨rfl, rfl⟩
        · rw [hoption hwatchdog] at hnext
          exact absurd (hnext.symm.trans hhead.symm) hne
        · simp at hlength
        · obtain rfl : rest = [] := by simpa using hlength
          obtain ⟨succ', hsucc', htask⟩ := hmarked hinv.algo
          obtain rfl : succ = succ' := Option.some.inj (hnext.symm.trans hsucc')
          rw [heq]
          exact Option.some.inj (htask.symm.trans ((show _ = _ from hwalk).trans hhead))
  refine ⟨⟨by simpa using hcalm'.list.ring, by simpa using hcalm'.list.head⟩, hcalm'.curr,
    hcalm'.algo, fun other hother h => ?_⟩
  show calm.currTask = some other
  rw [SchedState.status_setStatus, Function.update_apply] at h
  split at h
  · next heq => rw [htask other hother heq, hcurr']
  · exact hcalm'.running other hother h

theorem RunInv.step {algo : SchedAlgo} {queue : List Addr} {others : ℕ}
    (hmarks : MarksCurrent cfg algo others) (hlength : queue.length = others + 1)
    (hinv : RunInv algo queue state) {op : KernelOp}
    (hstep : Returns (fun fuel => op.run cfg fuel state) state') : RunInv algo queue state' := by
  obtain ⟨fuel, hrun⟩ := hstep
  by_cases hop : op.Despatches
  · obtain ⟨before, hcalm, hdespatch⟩ := exists_despatch_of_despatches hop hrun
    exact (hinv.of_calm hcalm).despatch hmarks hlength hdespatch
  · exact hinv.of_calm (calm_run_of_not_despatches hop hinv.curr hrun)

/-- The first despatch, with the watchdog off, prepares nothing. -/
theorem heliosPreSched_of_startInv {algo : SchedAlgo} {queue : List Addr}
    (hinv : StartInv algo queue state) (hoption : cfg.antiDeadlock = false) {head : Addr}
    (hhead : state.readyListHead = some head) (fuel : ℕ) :
    heliosPreSched cfg fuel state = .done (state.setStatus head .ready) := by
  have hcurr : state.currTask = some head := hinv.curr.trans hhead
  have hsweep : heliosSchedWaitListAdjustment cfg fuel (state.setStatus head .ready) =
      .done (state.setStatus head .ready) := by
    rw [heliosSchedWaitListAdjustment, show (state.setStatus head .ready).waitListHead = none from
      hinv.wait]
    rfl
  have hback : heliosSchedSendBackOfTaskPrio fuel (some head) (state.setStatus head .ready) =
      .done (.success, state.setStatus head .ready) := by
    simp [heliosSchedSendBackOfTaskPrio,
      show (state.setStatus head .ready).readyListHead = some head from hhead]
  have hcurr' : (state.setStatus head .ready).currTask = some head := hcurr
  simp [heliosPreSched, hcurr, hsweep, heliosSchedDeadlockAdjustmentAndDetection, hoption,
    hcurr', hback]

/-- Round robin over three or more ready tasks marks the third. -/
theorem roundRobin_of_three {head succ third : Addr} {rest : List Addr}
    (hlist : state.ListIs .ready (head :: succ :: third :: rest))
    (hcurr : state.currTask = some head) (hready : state.status succ = .ready) :
    heliosSchedAlgoRoundRobinFn state = .done (state.setStatus third .running) := by
  obtain ⟨hnext, hne, hwalk⟩ := hlist.readyWalk (by simp)
  have hthird : state.next .ready succ = some third := hwalk.1
  simp [heliosSchedAlgoRoundRobinFn, hcurr, hnext, resumeIdle, hne, hready,
    heliosSchedContextSwitch, hthird]

/-- The priority search marks the last task when that one is ready. -/
theorem priorityDriven_of_ready_last {head last : Addr} {init : List Addr}
    (hlist : state.ListIs .ready (init ++ [last])) (hhead : state.readyListHead = some head)
    (hready : state.status last = .ready) (fuel : ℕ) :
    heliosSchedAlgoPriorityDrivenFn (fuel + 1) state = .done (state.setStatus last .running) := by
  have hfirst : (init ++ [last]).head? = some head := hlist.head.symm.trans hhead
  have hprev : state.prev .ready head = some last := (hlist.ring.joined_last hfirst).2
  have hturn : priorityTurn (some last, state) = .done (.exit (some last, state)) := by
    simp [priorityTurn, hready]
  simp [heliosSchedAlgoPriorityDrivenFn, hhead, hprev, loop, hturn, heliosSchedContextSwitch]

/-- With the watchdog off, round robin over three or more tasks marks the third, and the
priority search over two or more the last. -/
theorem returns_first_despatch {algo : SchedAlgo} {queue : List Addr} {others : ℕ}
    (hinv : StartInv algo queue state) (hlength : queue.length = others + 1)
    (hmarks : ¬ MarksCurrent cfg algo others) :
    ∃ state' task, Returns (fun fuel => heliosSchedulerDespatch cfg fuel state) state' ∧
      OnReadyList state' task ∧ state'.status task = .running ∧
      state'.currTask ≠ some task := by
  simp only [MarksCurrent, not_or, not_and] at hmarks
  obtain ⟨hwatchdog, hothers, halgo⟩ := hmarks
  obtain ⟨head, rest, rfl⟩ := List.exists_cons_of_length_eq_add_one hlength
  have hhead : state.readyListHead = some head := hinv.list.head
  have hcurr : state.currTask = some head := hinv.curr.trans hhead
  have hpre := heliosPreSched_of_startInv hinv (by simpa using hwatchdog) hhead
  generalize hprepared : state.setStatus head .ready = prepared at hpre
  have hlist : prepared.ListIs .ready (head :: rest) := by
    rw [← hprepared]
    exact ⟨by simpa using hinv.list.ring, by simpa using hinv.list.head⟩
  have hstatus : ∀ task ∈ head :: rest, prepared.status task = .ready := by
    intro task htask
    rw [← hprepared, SchedState.status_setStatus, Function.update_apply]
    split
    · rfl
    · exact hinv.status task htask
  have hcurr' : prepared.currTask = some head := by rw [← hprepared]; exact hcurr
  have halgo' : prepared.selectedSched = some algo := by rw [← hprepared]; exact hinv.algo
  have hhead' : prepared.readyListHead = some head := hlist.head
  -- what is left is that the algorithm marks another task of the list
  suffices hmark : ∃ task ∈ head :: rest, task ≠ head ∧
      ∀ fuel, runSelectedSched (fuel + 1) prepared = .done (prepared.setStatus task .running) by
    obtain ⟨task, htask, hne, hrun⟩ := hmark
    refine ⟨prepared.setStatus task .running, task, ⟨1, ?_⟩, ⟨head :: rest, ⟨?_, ?_⟩, htask⟩,
      ?_, ?_⟩
    · simp [heliosSchedulerDespatch, hinv.preSched, hpre, hrun]
    · simpa using hlist.ring
    · simpa using hlist.head
    · simp
    · show prepared.currTask ≠ some task
      rw [hcurr']
      simpa using hne.symm
  have hnodup := hlist.ring.nodup
  cases algo with
  | roundRobin =>
      obtain ⟨succ, third, rest, rfl⟩ : ∃ succ third rest', rest = succ :: third :: rest' := by
        match rest, hlength with
        | [], hlength => exact absurd (by simpa using hlength.symm) hothers
        | [_], hlength => exact absurd rfl (halgo (by simpa using hlength.symm))
        | succ :: third :: rest', _ => exact ⟨succ, third, rest', rfl⟩
      refine ⟨third, by simp, ?_, fun fuel => ?_⟩
      · rintro rfl
        simp at hnodup
      · simp only [runSelectedSched, halgo']
        exact roundRobin_of_three hlist hcurr' (hstatus succ (by simp))
  | priorityDriven =>
      have hrest : rest ≠ [] := by
        rintro rfl
        exact hothers (by simpa using hlength.symm)
      obtain ⟨init, last, rfl⟩ := (List.eq_nil_or_concat' rest).resolve_left hrest
      refine ⟨last, by simp, ?_, fun fuel => ?_⟩
      · rintro rfl
        simp at hnodup
      · simp only [runSelectedSched, halgo']
        exact priorityDriven_of_ready_last (List.cons_append ▸ hlist) hhead'
          (hstatus last (by simp)) fuel

/-- The kernel runs at most one task, and that the current one after every despatch, if and
only if the watchdog is on, or no task was added, or one task was added and the algorithm is
round robin. -/
theorem singleRunning_iff {algo : SchedAlgo} {calls : List AddCall}
    (hstart : KernelStarted cfg algo calls state) :
    SingleRunning cfg state ↔ MarksCurrent cfg algo calls.length := by
  obtain ⟨queue, hlength, hinv⟩ := startInv_of_kernelStarted hstart
  constructor
  · intro hsingle
    by_contra hmarks
    obtain ⟨state', task, hreturns, hlisted, hrunning, hcurr⟩ :=
      returns_first_despatch hinv hlength hmarks
    exact hcurr (hsingle.current state (.start rfl) .despatch state' trivial hreturns task hlisted
      hrunning)
  · intro hmarks
    have hrun : ∀ reached, (kernelSystem cfg state).Reachable (fun _ _ => True) reached →
        RunInv algo queue reached := by
      intro reached hreach
      refine hreach.invariant (RunInv algo queue) ?_ ?_
      · rintro start rfl
        exact ⟨hinv.list, hinv.curr, hinv.algo, fun task htask h => by
          simp [hinv.status task htask] at h⟩
      · exact fun op before after hbefore _ hstep => hbefore.step hmarks hlength hstep
    have hcurrent : ∀ reached, RunInv algo queue reached → ∀ task, OnReadyList reached task →
        reached.status task = .running → reached.currTask = some task := by
      rintro reached hreached task ⟨queue', hlist, htask⟩ h
      obtain rfl := hlist.ready_unique hreached.list
      exact hreached.running task htask h
    refine ⟨fun reached hreach first second hfirst hsecond h h' => ?_, ?_⟩
    · have hfirst' := hcurrent reached (hrun reached hreach) first hfirst h
      have hsecond' := hcurrent reached (hrun reached hreach) second hsecond h'
      exact Option.some.inj (hfirst'.symm.trans hsecond')
    · intro reached hreach op reached' _ hstep task hlisted h
      exact hcurrent reached' (hrun reached' (.step hreach trivial hstep)) task hlisted h

/-- `helios_run` starts the kernel with a despatch, and panics when that comes back. -/
theorem heliosRun_panics {algo : SchedAlgo} {calls : List AddCall} {boot : SchedState}
    {idle : AddCall} (hboot : BootRun cfg calls boot) (hidle : idle.args = idleTaskArgs cfg)
    (hunused : idle.block ∉ boot.heapBlocks) :
    ∃ start, KernelStarted cfg algo calls start ∧
      ∀ state', (kernelSystem cfg start).step .despatch start state' →
        ∃ fuel, heliosRun cfg fuel 0 idle.memory (heliosSetSchedAlgo algo boot).2 =
          .fault .panic := by
  obtain ⟨after, -, -, hinit⟩ :=
    returns_runInit ((bootInv_of_bootRun hboot).setSchedAlgo algo) hidle hunused
  refine ⟨_, ⟨boot, idle, _, hboot, hidle, hunused, hinit⟩, fun state' hstep => ?_⟩
  obtain ⟨enough, hinit⟩ := hinit.eventually (fuelMono_runInit _ _ _ _)
  obtain ⟨enough', hyield⟩ := Returns.eventually hstep (fuelMono_despatch _ _)
  refine ⟨max enough enough', ?_⟩
  have hback : heliosTaskYield cfg (max enough enough') (heliosInitScheduler after) =
      .done state' := hyield _ (le_max_right _ _)
  simp only [heliosRun, hinit _ (le_max_left _ _), Outcome.done_bind, hback]

/-- The started kernel exists for every list of calls on fresh memory. -/
theorem exists_kernelStarted (cfg : HeliosConfig) (algo : SchedAlgo) {calls : List AddCall}
    {idle : AddCall} (hidle : idle.args = idleTaskArgs cfg)
    (hfresh : FreshCalls (calls ++ [idle])) :
    ∃ state, KernelStarted cfg algo calls state := by
  obtain ⟨hbefore, -, hcross⟩ := List.pairwise_append.mp hfresh
  obtain ⟨boot, hboot, hheap⟩ := exists_bootRun cfg hbefore
  have hunused : idle.block ∉ boot.heapBlocks := by
    intro h
    obtain ⟨other, hother, heq⟩ := hheap _ h
    obtain ⟨hblock, hstack⟩ := hcross other hother idle (List.mem_singleton_self idle)
    exact heq.elim hblock hstack
  obtain ⟨state, hstarted, -⟩ := heliosRun_panics hboot hidle hunused
  exact ⟨state, hstarted⟩

theorem singleRunning_one_task :
    ∃ state, KernelStarted (defaultConfig false) .roundRobin [numberedCall 3 (by decide) 0] state ∧
      SingleRunning (defaultConfig false) state := by
  obtain ⟨state, hstart⟩ := exists_kernelStarted (defaultConfig false) .roundRobin
    (show (idleCall (defaultConfig false) 1).args = _ from rfl)
    (show FreshCalls ([numberedCall 3 (by decide) 0] ++ [idleCall (defaultConfig false) 1]) by
      simp [FreshCalls, numberedCall, idleCall])
  exact ⟨state, hstart, (singleRunning_iff hstart).mpr (.inr (.inr ⟨rfl, rfl⟩))⟩

/-- Two tasks besides the idle task, round robin: the first despatch runs a task that is not
the current one. -/
theorem exists_kernelStarted_not_singleRunning :
    ∃ state, KernelStarted (defaultConfig false) .roundRobin
        [numberedCall 3 (by decide) 0, numberedCall 3 (by decide) 1] state ∧
      ¬ SingleRunning (defaultConfig false) state := by
  obtain ⟨state, hstart⟩ := exists_kernelStarted (defaultConfig false) .roundRobin
    (show (idleCall (defaultConfig false) 2).args = _ from rfl)
    (show FreshCalls ([numberedCall 3 (by decide) 0, numberedCall 3 (by decide) 1] ++
        [idleCall (defaultConfig false) 2]) by
      simp [FreshCalls, numberedCall, idleCall])
  refine ⟨state, hstart, fun hsingle => ?_⟩
  obtain ⟨queue, hlength, hinv⟩ := startInv_of_kernelStarted hstart
  obtain ⟨state', task, hreturns, hlisted, hrunning, hcurr⟩ :=
    @returns_first_despatch (defaultConfig false) _ _ _ _ hinv hlength
      (by simp [MarksCurrent, defaultConfig])
  exact hcurr (hsingle.current state (.start rfl) .despatch state' trivial hreturns task hlisted
    hrunning)

end Cyancore.Helios
