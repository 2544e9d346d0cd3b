/-
# The wait list

A task is put on the wait list by `_helios_sched_send_to_wait` and
`_helios_sched_send_to_pause` and taken off by `_helios_sched_send_to_resume`.
Seen from outside the list is a queue: the first two append, the third erases.
The two appending operations only look at their own target status, so a task
that already is on the list under the other status is linked in a second time;
the queue survives every run in which that does not happen.
-/

import Cyancore.Helios.Lists
import Cyancore.Math.Transition

namespace Cyancore.Helios

open Cyancore.Math

variable {state : SchedState} {queue : List Addr} {task : Addr}

/-! ## The operations on a queue -/

/-- Sending a task to a list headed by another links it in before the head. -/
theorem sendToWaitList_of_head {ref pred : Addr} {target : TaskStatus}
    (hstatus : state.status task ≠ target) (hhead : state.waitListHead = some ref)
    (hne : task ≠ ref) (hpred : state.prev .wait ref = some pred) (ticks : ℕ) :
    sendToWaitList target ticks (some task) state =
      .done (((state.putList .wait ((state.links .wait).insertBefore ref pred task)
        (some ref)).setDelay task ticks).setStatus task target) := by
  simp only [sendToWaitList, deref_some, Outcome.done_bind, if_neg hstatus, hhead,
    heliosSchedInsertBefore_of_some hne hpred, if_true, Outcome.pure_eq]
  rfl

/-- Sending a task to an empty list, or to one that it heads, makes it point at itself. -/
theorem sendToWaitList_of_alone {target : TaskStatus} (hstatus : state.status task ≠ target)
    (hhead : state.waitListHead = none ∨ state.waitListHead = some task) (ticks : ℕ) :
    sendToWaitList target ticks (some task) state =
      .done (((state.putList .wait ((state.links .wait).alone task) (some task)).setDelay
        task ticks).setStatus task target) := by
  rcases hhead with hhead | hhead
  · simp only [sendToWaitList, deref_some, Outcome.done_bind, if_neg hstatus, hhead,
      heliosSchedInsertBefore_of_none, if_true, Outcome.pure_eq]
    rfl
  · simp only [sendToWaitList, deref_some, Outcome.done_bind, if_neg hstatus, hhead,
      heliosSchedInsertBefore_self, if_true, Outcome.pure_eq]
    rfl

/-- Sending a task that is not on the list appends it. -/
theorem sendToWaitList_of_notMem (hlist : state.ListIs .wait queue) (hfresh : task ∉ queue)
    {target : TaskStatus} (hstatus : state.status task ≠ target) (ticks : ℕ) :
    ∃ links : Links Addr, links.Ring (queue ++ [task]) ∧
      sendToWaitList target ticks (some task) state =
        .done (((state.putList .wait links (queue ++ [task]).head?).setDelay task ticks).setStatus
          task target) := by
  have hhead : state.waitListHead = queue.head? := hlist.head
  cases queue with
  | nil =>
      exact ⟨_, (state.links .wait).ring_alone task,
        sendToWaitList_of_alone hstatus (.inl hhead) ticks⟩
  | cons ref rest =>
      obtain ⟨pred, -, hpred⟩ := hlist.ring.exists_prev List.mem_cons_self
      have hne : task ≠ ref := fun h => hfresh (by simp [h])
      exact ⟨_, hlist.ring.insertBefore_head hfresh hpred.2,
        sendToWaitList_of_head hstatus hhead hne hpred.2 ticks⟩

theorem sendToWaitList_of_status {target : TaskStatus} (hstatus : state.status task = target)
    (ticks : ℕ) : sendToWaitList target ticks (some task) state = .done state := by
  simp [sendToWaitList, hstatus]

/-- The statuses of the tasks that belong on the wait list. -/
def TaskStatus.Blocked (status : TaskStatus) : Prop := status = .wait ∨ status = .pause

instance (status : TaskStatus) : Decidable status.Blocked :=
  inferInstanceAs (Decidable (_ ∨ _))

theorem TaskStatus.blocked_iff_code {status : TaskStatus} :
    status.Blocked ↔ ¬ status.code < TaskStatus.wait.code := by
  cases status <;> decide

theorem heliosSchedSendToResume_of_not_blocked (hstatus : ¬ (state.status task).Blocked) :
    heliosSchedSendToResume (some task) state = .done state := by
  rw [TaskStatus.blocked_iff_code, not_not] at hstatus
  simp [heliosSchedSendToResume, hstatus]

/-- Where `_helios_sched_send_to_resume` moves the head before it detaches the task. -/
def resumedHead (state : SchedState) (task : Addr) : Option Addr :=
  if some task = state.waitListHead then
    if state.next .wait task = some task ∧ state.prev .wait task = some task then none
    else state.next .wait task
  else state.waitListHead

/-- Resuming a blocked task detaches it from its neighbours. -/
theorem heliosSchedSendToResume_of_links {pred succ : Addr}
    (hstatus : (state.status task).Blocked) (hpred : state.prev .wait task = some pred)
    (hsucc : state.next .wait task = some succ) (hoff : some task ≠ resumedHead state task) :
    heliosSchedSendToResume (some task) state =
      .done (((state.putList .wait ((state.links .wait).detach task pred succ)
        (resumedHead state task)).setDelay task 0).setStatus task .ready) := by
  have hmoved : (if some task = state.waitListHead then
      if state.next .wait task = some task ∧ state.prev .wait task = some task then
        { state with waitListHead := none }
      else { state with waitListHead := state.next .wait task }
    else state) = state.putList .wait (state.links .wait) (resumedHead state task) := by
    unfold resumedHead
    split
    · split
      · rfl
      · rfl
    · rfl
  have hunlink := unlink_of_moved (resumedHead state task) hpred hsucc
  rw [TaskStatus.blocked_iff_code] at hstatus
  simp only [heliosSchedSendToResume, deref_some, Outcome.done_bind, if_neg hstatus, hmoved,
    heliosSchedNodeDetach, SchedState.waitListHead_putList_wait, if_neg hoff, hunlink,
    Outcome.pure_eq]

/-- The head moves on when it is the task that is resumed. -/
theorem resumedHead_of_mem (hlist : state.ListIs .wait queue) (hmem : task ∈ queue) :
    resumedHead state task = (queue.erase task).head? := by
  cases queue with
  | nil => simp at hmem
  | cons ref rest =>
      have hhead : state.waitListHead = some ref := hlist.head
      by_cases href : ref = task
      · subst href
        rw [resumedHead, if_pos hhead.symm, List.erase_cons_head]
        cases rest with
        | nil =>
            have hself : (state.links .wait).Joined ref ref :=
              @Links.Ring.joined_last _ _ [] ref ref hlist.ring rfl
            rw [if_pos ⟨hself.1, hself.2⟩]
            rfl
        | cons succ rest =>
            have hjoined := Links.Ring.joined_of_split [] rest hlist.ring
            have hne : succ ≠ ref := fun h => by
              have hnodup := hlist.ring.nodup
              simp [h] at hnodup
            have hnext : state.next .wait ref = some succ := hjoined.1
            rw [if_neg (by simp [hnext, hne]), hnext]
            rfl
      · have hne : some task ≠ state.waitListHead := by
          rw [hhead]
          simpa using Ne.symm href
        rw [resumedHead, if_neg hne, List.erase_cons_tail (by simpa using href),
          List.head?_cons, hhead]

/-- Resuming a task of the list bridges over it. -/
theorem exists_detached (hlist : state.ListIs .wait queue) (hmem : task ∈ queue)
    (hstatus : (state.status task).Blocked) :
    ∃ pred succ, ((state.links .wait).detach task pred succ).Ring (queue.erase task) ∧
      heliosSchedSendToResume (some task) state =
        .done (((state.putList .wait ((state.links .wait).detach task pred succ)
          (queue.erase task).head?).setDelay task 0).setStatus task .ready) := by
  obtain ⟨pred, -, hpred⟩ := hlist.ring.exists_prev hmem
  obtain ⟨succ, -, hsucc⟩ := hlist.ring.exists_next hmem
  have hring := hlist.ring.detach_erase hmem hpred.2 hsucc.1
  have hhead := resumedHead_of_mem hlist hmem
  have hoff : some task ≠ resumedHead state task := fun h => by
    rw [hhead] at h
    exact List.Nodup.not_mem_erase hlist.ring.nodup (List.mem_of_mem_head? h.symm)
  refine ⟨pred, succ, hring, ?_⟩
  rw [← hhead]
  exact heliosSchedSendToResume_of_links hstatus hpred.2 hsucc.1 hoff

/-- Resuming a task of the list takes it off and leaves the others in their order. -/
theorem heliosSchedSendToResume_of_mem (hlist : state.ListIs .wait queue) (hmem : task ∈ queue)
    (hstatus : (state.status task).Blocked) :
    ∃ links : Links Addr, links.Ring (queue.erase task) ∧ links.next task = none ∧
      heliosSchedSendToResume (some task) state =
        .done (((state.putList .wait links (queue.erase task).head?).setDelay task 0).setStatus
          task .ready) := by
  obtain ⟨pred, succ, hring, hrun⟩ := exists_detached hlist hmem hstatus
  exact ⟨_, hring, by simp [Links.detach], hrun⟩

/-- A list rewritten together with its head holds the ring it was rewritten to. -/
theorem listIs_wait_putList {links : Links Addr} (hring : links.Ring queue) (ticks : ℕ)
    (value : TaskStatus) :
    SchedState.ListIs (((state.putList .wait links queue.head?).setDelay task ticks).setStatus
      task value) .wait queue :=
  ⟨by simpa using hring, by simp⟩

/-! ## What a resumption leaves -/

/-- The state after a task of the wait list was resumed. -/
structure Resumed (queue : List Addr) (task : Addr) (state state' : SchedState) : Prop where
  status : state'.status = Function.update state.status task .ready
  delay : state'.delay = Function.update state.delay task 0
  next : state'.next .wait task = none
  prev : state'.prev .wait task = none
  /-- The other tasks are on the list in their order. -/
  list : state'.ListIs .wait (queue.erase task)
  /-- The head moves on if it was the task, and is null if the task was alone. -/
  head : state'.waitListHead =
    if state.waitListHead = some task then
      if queue = [task] then none else state.next .wait task
    else state.waitListHead
  ready : state'.links .ready = state.links .ready

/-- A lone head leaves an empty list, any other its successor. -/
theorem head?_erase (hlist : state.ListIs .wait queue) (hmem : task ∈ queue) :
    (queue.erase task).head? =
      if state.waitListHead = some task then
        if queue = [task] then none else state.next .wait task
      else state.waitListHead := by
  cases queue with
  | nil => simp at hmem
  | cons ref rest =>
      have hhead : state.waitListHead = some ref := hlist.head
      by_cases href : ref = task
      · subst href
        rw [if_pos hhead, List.erase_cons_head]
        cases rest with
        | nil => rw [if_pos rfl, List.head?_nil]
        | cons succ rest =>
            rw [if_neg (by simp)]
            exact (Links.Ring.joined_of_split [] rest hlist.ring).1.symm
      · rw [if_neg (by simpa [hhead] using href), hhead,
          List.erase_cons_tail (by simpa using href), List.head?_cons]

/-- Resuming a blocked task of the wait list takes that task off it, and no other. -/
theorem exists_resumed_of_mem (hlist : state.ListIs .wait queue) (hmem : task ∈ queue)
    (hstatus : (state.status task).Blocked) :
    ∃ state', heliosSchedSendToResume (some task) state = .done state' ∧
      Resumed queue task state state' := by
  obtain ⟨pred, succ, hring, hrun⟩ := exists_detached hlist hmem hstatus
  refine ⟨_, hrun, ⟨by simp, by simp, ?_, ?_, listIs_wait_putList hring 0 .ready, ?_, by simp⟩⟩
  · simp [Links.detach]
  · simp [Links.detach]
  · exact head?_erase hlist hmem

/-- Two tasks on the wait list, of which the first waits and the second is paused. -/
def blockedPair : SchedState :=
  { bootState (fun addr =>
      if addr = 1 then { Tcb.zero with waitLink := ⟨some 2, some 2⟩, taskStatus := .wait }
      else if addr = 2 then { Tcb.zero with waitLink := ⟨some 1, some 1⟩, taskStatus := .pause }
      else Tcb.zero) (fun _ => 0) [] with
    waitListHead := some 1 }

theorem resumed_blockedPair :
    ∃ state', heliosSchedSendToResume (some 1) blockedPair = .done state' ∧
      Resumed [1, 2] 1 blockedPair state' :=
  exists_resumed_of_mem
    ⟨⟨by decide, .cons_cons ⟨rfl, rfl⟩ (.cons_cons ⟨rfl, rfl⟩ (.singleton 1))⟩, rfl⟩
    (by decide) (.inl rfl)

/-! ## Runs of the three operations -/

/-- A call of one of the three operations. -/
inductive WaitOp
  | sendToWait (task : Addr) (ticks : ℕ)
  | sendToPause (task : Addr)
  | sendToResume (task : Addr)
  deriving DecidableEq, Repr

/-- The task a call is about. -/
def WaitOp.target : WaitOp → Addr
  | .sendToWait task _ => task
  | .sendToPause task => task
  | .sendToResume task => task

/-- What a call does. -/
def WaitOp.run (cfg : HeliosConfig) : WaitOp → SchedState → Run SchedState
  | .sendToWait task ticks => heliosSchedSendToWait (some task) ticks
  | .sendToPause task => heliosSchedSendToPause cfg (some task)
  | .sendToResume task => heliosSchedSendToResume (some task)

/-- Calls on the given tasks, from an empty wait list with all of them ready. -/
def waitSystem (cfg : HeliosConfig) (tasks : Set Addr) :
    TransitionSystem SchedState WaitOp where
  init state := state.waitListHead = none ∧ ∀ task ∈ tasks, state.status task = .ready
  step op state state' := op.target ∈ tasks ∧ op.run cfg state = .done state'

/-- The wait list is a ring of exactly the tasks that wait or are paused, each once. -/
def WaitListInOrder (tasks : Set Addr) (state : SchedState) : Prop :=
  ∃ queue, state.ListIs .wait queue ∧
    ∀ task, task ∈ queue ↔ task ∈ tasks ∧ (state.status task).Blocked

/-- The task is the only one on the wait list. -/
def WaitsAlone (state : SchedState) (task : Addr) : Prop :=
  state.waitListHead = some task ∧ state.next .wait task = some task

/-- The call does not send a task that is on the wait list under the other status, unless
it is alone there. -/
def RequeuesNone (op : WaitOp) (state : SchedState) : Prop :=
  match op with
  | .sendToWait task _ => state.status task = .pause → WaitsAlone state task
  | .sendToPause task => state.status task = .wait → WaitsAlone state task
  | .sendToResume _ => True

theorem SchedState.ListIs.eq_singleton_of_waitsAlone (hlist : state.ListIs .wait queue)
    (halone : WaitsAlone state task) : queue = [task] := by
  have hhead : queue.head? = some task := hlist.head.symm.trans halone.1
  match queue, hhead with
  | [_], rfl => rfl
  | ref :: succ :: rest, rfl =>
      have hjoined := Links.Ring.joined_of_split [] rest hlist.ring
      have hnodup := hlist.ring.nodup
      obtain rfl : succ = ref := Option.some.inj (hjoined.1.symm.trans halone.2)
      simp at hnodup

/-- Sending to wait and sending to pause, in one statement: the call returns and keeps
the list in order. -/
theorem WaitListInOrder.sendToWaitList {tasks : Set Addr} (hinv : WaitListInOrder tasks state)
    (htask : task ∈ tasks) {target : TaskStatus} (htarget : target.Blocked)
    (hguard : (state.status task).Blocked → state.status task ≠ target → WaitsAlone state task)
    (ticks : ℕ) :
    ∃ state', sendToWaitList target ticks (some task) state = .done state' ∧
      WaitListInOrder tasks state' := by
  obtain ⟨queue, hlist, hmem⟩ := hinv
  by_cases hstatus : state.status task = target
  · exact ⟨state, sendToWaitList_of_status hstatus ticks, queue, hlist, hmem⟩
  by_cases hqueued : task ∈ queue
  · have halone := hguard ((hmem task).mp hqueued).2 hstatus
    obtain rfl := hlist.eq_singleton_of_waitsAlone halone
    have hrun := sendToWaitList_of_alone hstatus (.inr halone.1) ticks
    refine ⟨_, hrun, [task], listIs_wait_putList ((state.links .wait).ring_alone task) ticks target,
      fun other => ?_⟩
    by_cases hother : other = task
    · subst hother
      simp [htask, htarget]
    · simpa [hother] using hmem other
  · obtain ⟨links, hring, hrun⟩ := sendToWaitList_of_notMem hlist hqueued hstatus ticks
    refine ⟨_, hrun, queue ++ [task], listIs_wait_putList hring ticks target, fun other => ?_⟩
    by_cases hother : other = task
    · subst hother
      simp [htask, htarget]
    · simpa [hother] using hmem other

/-- Resuming returns and keeps the list in order. -/
theorem WaitListInOrder.sendToResume {tasks : Set Addr} (hinv : WaitListInOrder tasks state)
    (htask : task ∈ tasks) :
    ∃ state', heliosSchedSendToResume (some task) state = .done state' ∧
      WaitListInOrder tasks state' := by
  obtain ⟨queue, hlist, hmem⟩ := hinv
  by_cases hblocked : (state.status task).Blocked
  · have hqueued : task ∈ queue := (hmem task).mpr ⟨htask, hblocked⟩
    obtain ⟨links, hring, -, hrun⟩ := heliosSchedSendToResume_of_mem hlist hqueued hblocked
    refine ⟨_, hrun, queue.erase task, listIs_wait_putList hring 0 .ready, fun other => ?_⟩
    rw [List.Nodup.mem_erase_iff hlist.ring.nodup, hmem]
    by_cases hother : other = task
    · subst hother
      simp [TaskStatus.Blocked]
    · simp [hother]
  · exact ⟨state, heliosSchedSendToResume_of_not_blocked hblocked, queue, hlist, hmem⟩

/-- One guarded call returns and keeps the list in order. -/
theorem WaitListInOrder.run {cfg : HeliosConfig} {tasks : Set Addr} {op : WaitOp}
    (hinv : WaitListInOrder tasks state) (htask : op.target ∈ tasks)
    (hguard : RequeuesNone op state) :
    ∃ state', op.run cfg state = .done state' ∧ WaitListInOrder tasks state' := by
  cases op with
  | sendToWait task ticks =>
      apply hinv.sendToWaitList htask (.inl rfl) _ ticks
      intro hblocked hne
      exact hguard (hblocked.resolve_left hne)
  | sendToPause task =>
      apply hinv.sendToWaitList htask (.inr rfl) _ cfg.delayMax
      intro hblocked hne
      exact hguard (hblocked.resolve_right hne)
  | sendToResume task => exact hinv.sendToResume htask

/-- In every run that never requeues a task, the wait list is in order in every state
reached, and every further such call returns. -/
theorem waitListInOrder_of_reachable {cfg : HeliosConfig} {tasks : Set Addr}
    (hreach : (waitSystem cfg tasks).Reachable RequeuesNone state) :
    WaitListInOrder tasks state ∧
      ∀ op : WaitOp, op.target ∈ tasks → RequeuesNone op state →
        ∃ state', op.run cfg state = .done state' := by
  have hinv : WaitListInOrder tasks state := by
    apply hreach.invariant (WaitListInOrder tasks)
    · rintro start ⟨hhead, hready⟩
      refine ⟨[], ⟨Links.ring_nil, hhead⟩, fun task => ?_⟩
      simp only [List.not_mem_nil, false_iff, not_and]
      intro htask
      simp [hready task htask, TaskStatus.Blocked]
    · intro op before after hbefore hguard hstep
      obtain ⟨after', hrun, hafter⟩ := hbefore.run hstep.1 hguard
      obtain rfl : after' = after := Outcome.done.inj (hrun.symm.trans hstep.2)
      exact hafter
  refine ⟨hinv, fun op htask hguard => ?_⟩
  obtain ⟨state', hrun, -⟩ := hinv.run htask hguard
  exact ⟨state', hrun⟩

/-- A scheduler whose tasks are all ready, with an empty wait list. -/
def allReady : SchedState :=
  bootState (fun _ => { Tcb.zero with taskStatus := .ready }) (fun _ => 0) []

/-- Two tasks on the list, of which the first is resumed. -/
theorem waitListInOrder_after_resume :
    ∃ state, (waitSystem (defaultConfig false) {1, 2}).Reachable RequeuesNone state ∧
      state.waitListHead = some 2 ∧ WaitListInOrder {1, 2} state := by
  have hreach : (waitSystem (defaultConfig false) {1, 2}).Reachable RequeuesNone _ :=
    .step
      (.step
        (.step (.start (show (waitSystem _ _).init allReady from ⟨rfl, fun _ _ => rfl⟩))
          (show RequeuesNone (.sendToWait 1 5) _ from fun h => nomatch h) ⟨.inl rfl, rfl⟩)
        (show RequeuesNone (.sendToPause 2) _ from fun h => nomatch h) ⟨.inr rfl, rfl⟩)
      (show RequeuesNone (.sendToResume 1) _ from trivial) ⟨.inl rfl, rfl⟩
  exact ⟨_, hreach, rfl, (waitListInOrder_of_reachable hreach).1⟩

/-- Pausing the second of two waiting tasks breaks the list. -/
theorem exists_reachable_not_waitListInOrder :
    ∃ state, (waitSystem (defaultConfig false) {1, 2}).Reachable (fun _ _ => True) state ∧
      ¬ WaitListInOrder {1, 2} state := by
  have hreach : (waitSystem (defaultConfig false) {1, 2}).Reachable (fun _ _ => True) _ :=
    .step
      (.step
        (.step (.start (show (waitSystem _ _).init allReady from ⟨rfl, fun _ _ => rfl⟩))
          trivial (show (waitSystem _ _).step (.sendToWait 1 5) _ _ from ⟨.inl rfl, rfl⟩))
        trivial (show (waitSystem _ _).step (.sendToWait 2 5) _ _ from ⟨.inr rfl, rfl⟩))
      trivial (show (waitSystem _ _).step (.sendToPause 2) _ _ from ⟨.inr rfl, rfl⟩)
  refine ⟨_, hreach, ?_⟩
  rintro ⟨queue, hlist, hmem⟩
  have hfirst : 1 ∈ queue := (hmem 1).mpr ⟨.inl rfl, .inl rfl⟩
  obtain ⟨succ, -, hjoined⟩ := hlist.ring.exists_next hfirst
  obtain rfl : 2 = succ := Option.some.inj hjoined.1
  exact absurd (Option.some.inj hjoined.2) (by decide)

end Cyancore.Helios
