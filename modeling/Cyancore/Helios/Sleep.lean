/-
# Going to sleep

`helios_task_wait` puts the calling task on the wait list and despatches.  The
pre-scheduler then resets the status of the current task to ready, so the caller is
never asleep when the call comes back, and the sweep of the wait list, which does not
step over a task that is not waiting, can end only before it has reached the caller.
This module says exactly when the call returns, and what it has done to its caller.
-/

import Cyancore.Helios.Rotation
import Cyancore.Helios.Sweep
import Mathlib.Data.List.TakeWhile

namespace Cyancore.Helios

open Cyancore.Math

variable {cfg : HeliosConfig} {state state' : SchedState} {caller : Addr}

/-! ## The caller is left awake -/

/-- The task is not blocked, and what it waits for and the resources are as given. -/
structure AwakeWith (task : Addr) (ticks res : ℕ) (resource : ℕ → ℤ) (state : SchedState) :
    Prop where
  awake : ¬ (state.status task).Blocked
  delay : state.delay task = ticks
  awaited : state.awaited task = res
  resource : state.resource = resource

namespace AwakeWith

variable {ticks res : ℕ} {resource : ℕ → ℤ}

theorem putList (hawake : AwakeWith caller ticks res resource state) (linkType : LinkType)
    (links : Links Addr) (head : Option Addr) :
    AwakeWith caller ticks res resource (state.putList linkType links head) where
  awake := by simpa using hawake.awake
  delay := by simpa using hawake.delay
  awaited := by simpa using hawake.awaited
  resource := by cases linkType <;> exact hawake.resource

theorem setStatus (hawake : AwakeWith caller ticks res resource state) (task : Addr)
    {value : TaskStatus} (hvalue : ¬ value.Blocked) :
    AwakeWith caller ticks res resource (state.setStatus task value) where
  awake := by
    rw [SchedState.status_setStatus, Function.update_apply]
    split
    · exact hvalue
    · exact hawake.awake
  delay := by simpa using hawake.delay
  awaited := by simpa using hawake.awaited
  resource := hawake.resource

theorem setDelay (hawake : AwakeWith caller ticks res resource state) {task : Addr}
    (hne : caller ≠ task) (value : ℕ) :
    AwakeWith caller ticks res resource (state.setDelay task value) where
  awake := by simpa using hawake.awake
  delay := by simpa [hne] using hawake.delay
  awaited := by simpa using hawake.awaited
  resource := hawake.resource

theorem tickWaiting (hawake : AwakeWith caller ticks res resource state) {task : Addr}
    (hne : caller ≠ task) (waitRes : ℕ) :
    AwakeWith caller ticks res resource (tickWaiting cfg waitRes task state) := by
  rw [Helios.tickWaiting]
  split
  · have hzero := (hawake.setDelay hne (cfg.sizePred (state.delay task))).setDelay hne 0
    exact ⟨by simpa using hzero.awake, by simpa using hzero.delay,
      by simpa [hne] using hzero.awaited, hzero.resource⟩
  · exact hawake.setDelay hne _

/-- Only blocked tasks count down and are resumed, so never the caller. -/
theorem wakes (hawake : AwakeWith caller ticks res resource state)
    (hwakes : Wakes cfg state state') : AwakeWith caller ticks res resource state' := by
  induction hwakes with
  | refl => exact hawake
  | tick _ waitRes hwait ih => exact ih.tickWaiting (fun h => ih.awake (h ▸ .inl hwait)) waitRes
  | @resume before _ _ task hrun ih =>
      rcases sendToResume_cases hrun with ⟨-, rfl⟩ | ⟨hblocked, links, head, rfl⟩
      · exact ih
      · have hne : caller ≠ task := fun h => ih.awake (h ▸ hblocked)
        exact ((ih.putList .wait links head).setDelay hne 0).setStatus task (by decide)

end AwakeWith

/-- A despatch that returns leaves the current task awake and what it waits for as it was. -/
theorem awakeWith_of_despatch (hoption : cfg.antiDeadlock = false)
    (hcurr : state.currTask = some caller) {fuel : ℕ}
    (hrun : heliosSchedulerDespatch cfg fuel state = .done state') :
    AwakeWith caller (state.delay caller) (state.awaited caller) state.resource state' := by
  rw [heliosSchedulerDespatch] at hrun
  split at hrun
  swap
  · simp at hrun
  obtain ⟨prepared, hpre, hrun⟩ := Outcome.bind_eq_done_iff.mp hrun
  rw [heliosPreSched, hcurr] at hpre
  simp only [deref_some, Outcome.done_bind, heliosSchedDeadlockAdjustmentAndDetection, hoption,
    Bool.false_eq_true, if_false, Outcome.pure_eq] at hpre
  obtain ⟨swept, hsweep, hpre⟩ := Outcome.bind_eq_done_iff.mp hpre
  obtain ⟨⟨result, moved⟩, hback, hpre⟩ := Outcome.bind_eq_done_iff.mp hpre
  obtain rfl := Outcome.done.inj hpre
  obtain ⟨links, head, rfl⟩ := exists_putList_of_sendBack hback
  obtain ⟨woken, hwakes, hmarked⟩ := runSelectedSched_cases cfg hrun
  have hreset : AwakeWith caller (state.delay caller) (state.awaited caller) state.resource
      (state.setStatus caller .ready) :=
    ⟨by simp [TaskStatus.Blocked], by simp, by simp, rfl⟩
  have hswept := hreset.wakes (wakes_waitListAdjustment hsweep)
  have hwoken := (hswept.putList .ready links head).wakes hwakes
  rcases hmarked with rfl | ⟨task, rfl⟩
  · exact hwoken
  · exact hwoken.setStatus task (by decide)

/-! ## The algorithms on a list that leads to the caller -/

section Algorithms

variable {ready : List Addr} {head last : Addr}

/-- A state in which an algorithm is run: the caller is awake, every listed task is followed
by a listed one, and from the blocked tasks the wait list leads back to the caller. -/
structure Schedulable (state : SchedState) (caller : Addr) (ready : List Addr) : Prop where
  curr : state.currTask = some caller
  caller_mem : caller ∈ ready
  awake : state.status caller = .ready
  next : ∀ task ∈ ready, ∃ succ ∈ ready, state.next .ready task = some succ
  leads : (state.links .wait).LeadsTo caller {task | task ∈ ready ∧ (state.status task).Blocked}

/-- Resuming a task returns if the task is linked or need not be resumed. -/
theorem exists_resume {task : Addr}
    (hlinked : (state.status task).Blocked →
      (∃ pred, state.prev .wait task = some pred) ∧ ∃ succ, state.next .wait task = some succ) :
    ∃ resumed, heliosSchedSendToResume (some task) state = .done resumed := by
  by_cases hblocked : (state.status task).Blocked
  swap
  · exact ⟨state, heliosSchedSendToResume_of_not_blocked hblocked⟩
  obtain ⟨⟨pred, hpred⟩, succ, hsucc⟩ := hlinked hblocked
  have hdetach : ∀ moved : SchedState, moved.links .wait = state.links .wait →
      ∃ detached, heliosSchedNodeDetach (some task) .wait moved = .done (.success, detached) := by
    intro moved hlinks
    have hpred' : moved.prev .wait task = some pred :=
      (congrFun (congrArg Links.prev hlinks) task).trans hpred
    have hsucc' : moved.next .wait task = some succ :=
      (congrFun (congrArg Links.next hlinks) task).trans hsucc
    rw [heliosSchedNodeDetach]
    split
    · have hunlink := @unlink_of_some { moved with waitListHead := moved.next .ready task } .wait
        task pred succ hpred' hsucc'
      exact ⟨_, by rw [hunlink]; rfl⟩
    · exact ⟨_, by rw [unlink_of_some hpred' hsucc']; rfl⟩
  have hcode := TaskStatus.blocked_iff_code.mp hblocked
  simp only [heliosSchedSendToResume, deref_some, Outcome.done_bind, if_neg hcode]
  obtain ⟨detached, hdetached⟩ := hdetach (if some task = state.waitListHead then
      if state.next .wait task = some task ∧ state.prev .wait task = some task then
        { state with waitListHead := none }
      else { state with waitListHead := state.next .wait task }
    else state) (by
      split
      · split
        · rfl
        · rfl
      · rfl)
  exact ⟨_, by rw [hdetached]; rfl⟩

theorem Schedulable.exists_resume (hsched : Schedulable state caller ready) {task : Addr}
    (hmem : task ∈ ready) :
    ∃ resumed, heliosSchedSendToResume (some task) state = .done resumed := by
  refine Helios.exists_resume fun hblocked => ⟨?_, hsched.leads.next task ⟨hmem, hblocked⟩⟩
  obtain ⟨pred, hpred, -⟩ := hsched.leads.prev task ⟨hmem, hblocked⟩
  exact ⟨pred, hpred⟩

/-- Round robin returns. -/
theorem Schedulable.exists_roundRobin (hsched : Schedulable state caller ready) :
    ∃ state', heliosSchedAlgoRoundRobinFn state = .done state' := by
  obtain ⟨task, hmem, hnext⟩ := hsched.next caller hsched.caller_mem
  obtain ⟨succ, -, hsucc⟩ := hsched.next task hmem
  obtain ⟨resumed, hresume, hframe⟩ : ∃ resumed, resumeIdle (some task) state = .done resumed ∧
      resumed.frame = state.frame := by
    rw [resumeIdle]
    split
    · obtain ⟨resumed, hresume⟩ := hsched.exists_resume hmem
      exact ⟨resumed, hresume, (frame_of_sendToResume hresume).1⟩
    · exact ⟨state, rfl, rfl⟩
  have hsucc' : resumed.next .ready task = some succ := by
    rw [SchedState.next_ready_of_frame hframe, hsucc]
  by_cases hready : resumed.status task = .ready
  · refine ⟨resumed.setStatus succ .running, ?_⟩
    simp [heliosSchedAlgoRoundRobinFn, hsched.curr, hnext, hresume, hready, hsucc',
      heliosSchedContextSwitch]
  · refine ⟨resumed, ?_⟩
    simp [heliosSchedAlgoRoundRobinFn, hsched.curr, hnext, hresume, hready]

/-- The search ends with a ready task. -/
theorem priorityTurn_of_ready {task : Addr} (hready : state.status task = .ready) :
    priorityTurn (some task, state) = .done (.exit (some task, state)) := by
  simp [priorityTurn, hready]

/-- It goes on to the task before on the wait list, unless that heads the ready list. -/
theorem priorityTurn_of_prev {task : Addr} {ptr : Option Addr} (hready : state.status task ≠ .ready)
    (hprev : state.prev .wait task = ptr) (hhead : ptr ≠ state.readyListHead) :
    priorityTurn (some task, state) = .done (.next (ptr, state)) := by
  simp [priorityTurn, hready, hprev, hhead]

/-- The head of the ready list it resumes. -/
theorem priorityTurn_of_head {task : Addr} (hready : state.status task ≠ .ready)
    (hprev : state.prev .wait task = some head) (hhead : state.readyListHead = some head)
    (hresume : heliosSchedSendToResume (some head) state = .done state') :
    priorityTurn (some task, state) = .done (.exit (some head, state')) := by
  simp [priorityTurn, hready, hprev, hhead, hresume]

/-- The search starts from the last task of the ready list. -/
theorem priorityDriven_eq (hhead : state.readyListHead = some head)
    (hlast : state.prev .ready head = some last) (fuel : ℕ) :
    heliosSchedAlgoPriorityDrivenFn fuel state =
      loop priorityTurn fuel (some last, state) >>= fun found =>
        heliosSchedContextSwitch found.1 found.2 := by
  simp [heliosSchedAlgoPriorityDrivenFn, hhead, hlast]

/-- From a task without a link to the wait list the search follows a null pointer. -/
theorem not_returns_search_of_unlinked {task : Addr} {found : Option Addr × SchedState}
    (hhead : state.readyListHead = some head) (hready : state.status task ≠ .ready)
    (hprev : state.prev .wait task = none) :
    ¬ Returns (fun fuel => loop priorityTurn fuel (some task, state)) found := by
  have hturn := priorityTurn_of_prev hready hprev (by simp [hhead])
  have hfault : priorityTurn (none, state) = .fault .nullDeref := rfl
  rw [returns_loop_of_next hturn]
  exact not_returns_loop_of_fault hfault

/-- From a blocked task the search walks back until it meets a ready task or the head of the
ready list; the caller is ready. -/
theorem Schedulable.returns_priorityLoop (hsched : Schedulable state caller ready) {task : Addr}
    (hback : (state.links .wait).BackTo caller task)
    (hmem : task = caller ∨ task ∈ ready ∧ (state.status task).Blocked) :
    ∃ found final, Returns (fun fuel => loop priorityTurn fuel (some task, state))
      (some found, final) := by
  induction hback with
  | here =>
      have hturn := priorityTurn_of_ready hsched.awake
      exact ⟨caller, state, (returns_loop_of_exit hturn).mpr rfl⟩
  | @step task pred hprev hrest ih =>
      by_cases hready : state.status task = .ready
      · have hturn := priorityTurn_of_ready hready
        exact ⟨task, state, (returns_loop_of_exit hturn).mpr rfl⟩
      have hblocked := hmem.resolve_left fun h => hready (h ▸ hsched.awake)
      have hpred : pred = caller ∨ pred ∈ ready ∧ (state.status pred).Blocked := by
        obtain ⟨pred', hprev', hclosed⟩ := hsched.leads.prev task hblocked
        obtain rfl : pred' = pred := Option.some.inj (hprev'.symm.trans hprev)
        exact hclosed
      have hprev' : state.prev .wait task = some pred := hprev
      by_cases hhead : some pred = state.readyListHead
      · have hlisted : pred ∈ ready := hpred.elim (fun h => h ▸ hsched.caller_mem) And.left
        obtain ⟨resumed, hresume⟩ := hsched.exists_resume hlisted
        have hturn := priorityTurn_of_head hready hprev' hhead.symm hresume
        exact ⟨pred, resumed, (returns_loop_of_exit hturn).mpr rfl⟩
      · have hturn := priorityTurn_of_prev hready hprev' hhead
        obtain ⟨found, final, hreturns⟩ := ih hpred
        exact ⟨found, final, (returns_loop_of_next hturn).mpr hreturns⟩

/-- The priority search returns exactly when the last task is neither exited nor running. -/
theorem Schedulable.returns_priorityDriven_iff (hsched : Schedulable state caller ready)
    (hhead : state.readyListHead = some head) (hlast : state.prev .ready head = some last)
    (hmem : last ∈ ready)
    (hoff : ¬ (state.status last).Blocked → state.status last ≠ .ready →
      state.prev .wait last = none) :
    (∃ state', Returns (fun fuel => heliosSchedAlgoPriorityDrivenFn fuel state) state') ↔
      state.status last ≠ .exit ∧ state.status last ≠ .running := by
  have hsearch := priorityDriven_eq hhead hlast
  constructor
  · rintro ⟨state', fuel, hrun⟩
    obtain ⟨found, hloop, -⟩ := Outcome.bind_eq_done_iff.mp ((hsearch fuel).symm.trans hrun)
    by_contra hstatus
    have hready : state.status last ≠ .ready := fun h => hstatus (by simp [h])
    have hblocked : ¬ (state.status last).Blocked := fun h => hstatus (by
      rcases h with h | h
      · simp [h]
      · simp [h])
    exact not_returns_search_of_unlinked hhead hready (hoff hblocked hready) ⟨fuel, hloop⟩
  · rintro ⟨hexit, hrunning⟩
    obtain ⟨found, final, fuel, hloop⟩ :
        ∃ found final, Returns (fun fuel => loop priorityTurn fuel (some last, state))
          (some found, final) := by
      by_cases hblocked : (state.status last).Blocked
      · exact hsched.returns_priorityLoop (hsched.leads.back last ⟨hmem, hblocked⟩)
          (.inr ⟨hmem, hblocked⟩)
      · have hready : state.status last = .ready := by
          revert hexit hrunning hblocked
          cases state.status last <;> simp [TaskStatus.Blocked]
        have hturn := priorityTurn_of_ready hready
        exact ⟨last, state, (returns_loop_of_exit hturn).mpr rfl⟩
    refine ⟨final.setStatus found .running, fuel, (hsearch fuel).trans ?_⟩
    exact Outcome.bind_eq_done_iff.mpr ⟨_, hloop, rfl⟩

end Algorithms

/-! ## Putting the caller on the wait list -/

/-- A task of the ready list calls the scheduler: both lists are in good order, the wait list
holds the blocked tasks of the ready list, and the other tasks keep no link to it. -/
structure Calling (state : SchedState) (caller : Addr) (ready waiting : List Addr) : Prop where
  curr : state.currTask = some caller
  preSched : state.preSched = true
  readyList : state.ListIs .ready ready
  caller_mem : caller ∈ ready
  waitList : state.ListIs .wait waiting
  blocked : ∀ task, task ∈ waiting ↔ task ∈ ready ∧ (state.status task).Blocked
  unlinked : ∀ task ∈ ready, task ∉ waiting → state.prev .wait task = none

/-- The tasks that the sweep meets before the caller. -/
def ahead (caller : Addr) (waiting : List Addr) : List Addr := waiting.takeWhile (· ≠ caller)

/-- What sending the caller to wait leaves of the wait list: it leads from its head to the
caller, and back to the caller from everywhere. -/
structure Sent (state : SchedState) (caller : Addr) (waiting : List Addr) (sent : SchedState) :
    Prop where
  threaded : (sent.links .wait).Threaded caller (ahead caller waiting)
    {task | task ∈ waiting ∧ task ≠ caller}
  head : sent.waitListHead = (ahead caller waiting ++ [caller]).head?
  prev : ∀ task, task ∉ waiting → task ≠ caller → sent.prev .wait task = state.prev .wait task

section Sending

variable {waiting front back : List Addr}

theorem ahead_of_notMem (hcaller : caller ∉ waiting) : ahead caller waiting = waiting := by
  rw [ahead, List.takeWhile_eq_self_iff]
  intro task htask
  simpa using fun h : task = caller => hcaller (h ▸ htask)

/-- A list in which the caller stands, its pointers and those that point away from it
rewritten. -/
theorem threaded_of_ring {links links' : Links Addr} (hring : links.Ring (front ++ caller :: back))
    (hnext : ∀ a ∈ front, links'.next a = links.next a)
    (hlinked : ∀ a ∈ back, ∃ succ, links'.next a = some succ)
    (hprev : ∀ a ∈ front ++ back, links'.prev a = links.prev a ∨
      front.head? = some a ∧ links'.prev a = some caller) :
    links'.Threaded caller (ahead caller (front ++ caller :: back))
      {task | task ∈ front ++ caller :: back ∧ task ≠ caller} := by
  have hnodup := hring.nodup
  have hfront : caller ∉ front := fun h =>
    List.disjoint_of_nodup_append hnodup h List.mem_cons_self
  have hback : caller ∉ back :=
    (List.nodup_cons.mp (List.nodup_append.mp hnodup).2.1).1
  have hmembers : {task | task ∈ front ++ caller :: back ∧ task ≠ caller} =
      {task | task ∈ front ++ back} := by
    ext task
    by_cases htask : task = caller
    · simp [htask, hfront, hback]
    · simp [htask]
  rw [hmembers, ahead, (takeWhile_ne_of_notMem hfront).1]
  exact hring.threaded hnext hlinked hprev

/-- The caller is on the list under the other status, and is linked in once more. -/
theorem sent_of_requeue {target : TaskStatus} (hlist : state.ListIs .wait (front ++ caller :: back))
    (hstatus : state.status caller ≠ target) (ticks : ℕ) :
    ∃ sent, sendToWaitList target ticks (some caller) state = .done sent ∧
      Sent state caller (front ++ caller :: back) sent := by
  have hnodup := hlist.ring.nodup
  obtain ⟨hleft, hright, hcross⟩ := List.nodup_append.mp hnodup
  have hfront : caller ∉ front := fun h => hcross caller h caller List.mem_cons_self rfl
  have hback : caller ∉ back := (List.nodup_cons.mp hright).1
  have hahead : ahead caller (front ++ caller :: back) = front := (takeWhile_ne_of_notMem hfront).1
  cases front with
  | nil =>
      have hhead : state.waitListHead = some caller := hlist.head
      refine ⟨_, sendToWaitList_of_alone hstatus (.inr hhead) ticks, ?_, ?_, ?_⟩
      · refine threaded_of_ring hlist.ring (by simp) (fun a ha => ?_) (fun a ha => .inl ?_)
        · have hne : a ≠ caller := fun h => hback (h ▸ ha)
          obtain ⟨succ, -, hjoined⟩ := hlist.ring.exists_next (a := a) (by simp [ha])
          exact ⟨succ, by simpa [Links.alone, hne] using hjoined.1⟩
        · have hne : a ≠ caller := fun h => hback (h ▸ by simpa using ha)
          simp [Links.alone, hne]
      · rw [hahead]
        rfl
      · intro task _ hne
        simp [Links.alone, hne]
  | cons ref rest =>
      have hhead : state.waitListHead = some ref := hlist.head
      have hne : caller ≠ ref := fun h => hfront (by simp [h])
      obtain ⟨pred, hpred, hjoined⟩ := hlist.ring.exists_last_joined
      refine ⟨_, sendToWaitList_of_head hstatus hhead hne hjoined.2 ticks, ?_, ?_, ?_⟩
      · refine threaded_of_ring hlist.ring (fun a ha => ?_) (fun a ha => ?_) (fun a ha => ?_)
        · have hcaller : a ≠ caller := fun h => hfront (h ▸ ha)
          have hpred : a ≠ pred := hcross a ha pred hpred
          simp [Links.insertBefore, hcaller, hpred]
        · have hcaller : a ≠ caller := fun h => hback (h ▸ ha)
          by_cases hpred : a = pred
          · exact ⟨caller, by simp [Links.insertBefore, hpred]⟩
          · obtain ⟨succ, -, hjoined⟩ := hlist.ring.exists_next (a := a) (by simp [ha])
            exact ⟨succ, by simpa [Links.insertBefore, hcaller, hpred] using hjoined.1⟩
        · have hcaller : a ≠ caller := fun h => by
            rcases List.mem_append.mp ha with ha | ha
            · exact hfront (h ▸ ha)
            · exact hback (h ▸ ha)
          by_cases href : a = ref
          · exact .inr ⟨by rw [href]; rfl, by simp [Links.insertBefore, href]⟩
          · exact .inl (by simp [Links.insertBefore, hcaller, href])
      · rw [hahead]
        rfl
      · intro task hoff hcaller
        have href : task ≠ ref := fun h => hoff (by simp [h])
        simp [Links.insertBefore, hcaller, href]

/-- The caller is not on the list, and is appended. -/
theorem sent_of_append {target : TaskStatus} (hlist : state.ListIs .wait waiting)
    (hcaller : caller ∉ waiting) (hstatus : state.status caller ≠ target) (ticks : ℕ) :
    ∃ sent, sendToWaitList target ticks (some caller) state = .done sent ∧
      Sent state caller waiting sent := by
  have hahead := ahead_of_notMem hcaller
  have hmembers : {task | task ∈ waiting ∧ task ≠ caller} = {task | task ∈ waiting ++ []} := by
    ext task
    rw [List.append_nil]
    exact ⟨And.left, fun h => ⟨h, fun heq => hcaller (heq ▸ h)⟩⟩
  have hthreaded : ∀ links : Links Addr, links.Ring (waiting ++ [caller]) →
      links.Threaded caller (ahead caller waiting) {task | task ∈ waiting ∧ task ≠ caller} := by
    intro links hring
    rw [hahead, hmembers]
    exact hring.threaded (fun _ _ => rfl) (by simp) fun _ _ => .inl rfl
  cases waiting with
  | nil =>
      have hhead : state.waitListHead = none := hlist.head
      refine ⟨_, sendToWaitList_of_alone hstatus (.inl hhead) ticks, hthreaded _ ?_, ?_, ?_⟩
      · simpa using (state.links .wait).ring_alone caller
      · rfl
      · intro task _ hne
        simp [Links.alone, hne]
  | cons ref rest =>
      have hhead : state.waitListHead = some ref := hlist.head
      have hne : caller ≠ ref := fun h => hcaller (by simp [h])
      obtain ⟨pred, -, hpred⟩ := hlist.ring.exists_prev List.mem_cons_self
      refine ⟨_, sendToWaitList_of_head hstatus hhead hne hpred.2 ticks, hthreaded _ ?_, ?_, ?_⟩
      · simpa using hlist.ring.insertBefore_head hcaller hpred.2
      · rw [hahead]
        rfl
      · intro task hoff hne
        have href : task ≠ ref := fun h => hoff (by simp [h])
        simp [Links.insertBefore, hne, href]

/-- Sending the caller to wait returns. -/
theorem exists_sent (hlist : state.ListIs .wait waiting) {target : TaskStatus}
    (htarget : state.status caller = target → caller ∈ waiting) (ticks : ℕ) :
    ∃ sent, sendToWaitList target ticks (some caller) state = .done sent ∧
      Sent state caller waiting sent := by
  by_cases hstatus : state.status caller = target
  · have hcaller := htarget hstatus
    obtain ⟨front, back, rfl, hfront⟩ := List.eq_append_cons_of_mem hcaller
    refine ⟨state, sendToWaitList_of_status hstatus ticks, ?_, ?_, fun _ _ _ => rfl⟩
    · refine threaded_of_ring hlist.ring (fun _ _ => rfl) (fun a ha => ?_) fun _ _ => .inl rfl
      obtain ⟨succ, -, hjoined⟩ := hlist.ring.exists_next (a := a) (by simp [ha])
      exact ⟨succ, hjoined.1⟩
    · rw [ahead, (takeWhile_ne_of_notMem hfront).1]
      refine (show state.waitListHead = _ from hlist.head).trans ?_
      cases front with
      | nil => rfl
      | cons ref rest => rfl
  by_cases hcaller : caller ∈ waiting
  · obtain ⟨front, back, rfl⟩ := List.append_of_mem hcaller
    exact sent_of_requeue hlist hstatus ticks
  · exact sent_of_append hlist hcaller hstatus ticks

end Sending

/-! ## When the call returns -/

section Returning

variable {ready waiting : List Addr} {sent swept : SchedState}

/-- A wait that has put its caller on the list is a sweep, a move of the caller on the ready
list and a run of the algorithm. -/
theorem returns_taskWait_iff (hoption : cfg.antiDeadlock = false)
    (hcall : Calling state caller ready waiting) {ticks : ℕ} (hticks : 0 < ticks)
    (hsent : heliosSchedSendToWait (some caller) ticks state = .done sent) :
    Returns (fun fuel => heliosTaskWait cfg fuel ticks state) state' ↔
      ∃ swept, Returns (fun fuel =>
          heliosSchedWaitListAdjustment cfg fuel (sent.setStatus caller .ready)) swept ∧
        ∃ moved, Returns (fun fuel =>
            heliosSchedSendBackOfTaskPrio fuel swept.currTask swept) moved ∧
          Returns (fun fuel => runSelectedSched fuel moved.2) state' := by
  have hframe := (frame_of_sendToWaitList hsent).1
  have hcurr : sent.currTask = some caller :=
    (SchedState.currTask_of_frame hframe).trans hcall.curr
  have hpre : sent.preSched = true :=
    (congrArg (fun s => s.preSched) hframe).trans hcall.preSched
  have hsteps : (fun fuel => heliosTaskWait cfg fuel ticks state) = fun fuel =>
      heliosSchedWaitListAdjustment cfg fuel (sent.setStatus caller .ready) >>= fun swept =>
        heliosSchedSendBackOfTaskPrio fuel swept.currTask swept >>= fun moved =>
          runSelectedSched fuel moved.2 := by
    funext fuel
    simp only [heliosTaskWait, if_pos hticks, hcall.curr, hsent, Outcome.done_bind,
      heliosTaskYield, heliosSchedulerDespatch, hpre, if_true, heliosPreSched, hcurr, deref_some,
      heliosSchedDeadlockAdjustmentAndDetection, hoption, Bool.false_eq_true, if_false,
      Outcome.pure_eq, Outcome.bind_assoc]
  rw [hsteps, returns_bind_iff (fuelMono_waitListAdjustment _ _) fun _ =>
    (fuelMono_sendBackOfTaskPrio _ _).bind fun _ => fuelMono_runSelectedSched _]
  refine exists_congr fun swept => and_congr_right fun _ => ?_
  rw [returns_bind_iff (fuelMono_sendBackOfTaskPrio _ _) fun _ => fuelMono_runSelectedSched _]

/-- The sweep of the list to which the caller has been sent runs up to the caller. -/
theorem Sent.sweepPath (hsent : Sent state caller waiting sent) :
    SweepPath (sent.setStatus caller .ready) caller (ahead caller waiting) where
  forward := by simpa using hsent.threaded.forward
  nodup := hsent.threaded.nodup
  prev := fun task htask => by
    obtain ⟨pred, hpred, -⟩ := hsent.threaded.prev task (hsent.threaded.subset task htask)
    exact ⟨pred, by simpa using hpred⟩
  head := by
    obtain ⟨head, rest, hsplit⟩ :=
      List.exists_cons_of_ne_nil (List.concat_ne_nil caller (ahead caller waiting))
    have hnodup := hsent.threaded.nodup
    rw [hsplit] at hnodup ⊢
    refine ⟨head, ?_, (List.nodup_cons.mp hnodup).1⟩
    exact (hsent.head.trans (by rw [hsplit])).trans List.head?_cons
  caller := by simp

/-- A task that is not the caller is left as it was. -/
theorem due_of_sent {ticks waitRes : ℕ}
    (hsent : heliosSchedSendToWait (some caller) ticks state = .done sent) {task : Addr}
    (hne : task ≠ caller) :
    (sent.setStatus caller .ready).status task = state.status task ∧
      (Due cfg waitRes (sent.setStatus caller .ready) task ↔ Due cfg waitRes state task) := by
  rcases sendToWaitList_cases hsent with ⟨-, rfl⟩ | ⟨-, links, head, rfl⟩
  · refine ⟨by simp [hne], ?_⟩
    simp only [Due, SchedState.delay_setStatus]
    rfl
  · refine ⟨by simp [hne], ?_⟩
    simp only [Due, SchedState.delay_setStatus, SchedState.delay_setDelay,
      Function.update_of_ne hne, SchedState.delay_putList]
    rfl

/-- The sweep meets the same tasks, and looks at the same resource, as before the caller was
put on the list. -/
theorem Sent.firstDue_iff {ticks : ℕ} (hlist : state.ListIs .wait waiting)
    (hrun : heliosSchedSendToWait (some caller) ticks state = .done sent)
    (hsent : Sent state caller waiting sent) {before : List Addr} {task : Addr} :
    FirstDue cfg (sent.setStatus caller .ready).headResource (sent.setStatus caller .ready)
        (ahead caller waiting) before task ↔
      FirstDue cfg state.headResource state (ahead caller waiting) before task := by
  have hsame : ∀ other ∈ ahead caller waiting,
      (sent.setStatus caller .ready).status other = state.status other ∧
        (Due cfg (sent.setStatus caller .ready).headResource (sent.setStatus caller .ready) other ↔
          Due cfg state.headResource state other) := by
    intro other hother
    have hne : other ≠ caller := (hsent.threaded.subset other hother).2
    have hres : (sent.setStatus caller .ready).headResource = state.headResource := by
      cases hahead : ahead caller waiting with
      | nil => simp [hahead] at hother
      | cons head rest =>
          have hhead : (sent.setStatus caller .ready).waitListHead = some head :=
            hsent.head.trans (by rw [hahead]; rfl)
          have hhead' : state.waitListHead = some head := by
            obtain ⟨back, hback⟩ := List.takeWhile_prefix (l := waiting) (· ≠ caller)
            refine (show state.waitListHead = _ from hlist.head).trans ?_
            rw [← hback, show waiting.takeWhile (· ≠ caller) = head :: rest from hahead]
            rfl
          have hawaited : (sent.setStatus caller .ready).awaited = state.awaited := by
            rcases sendToWaitList_cases hrun with ⟨-, rfl⟩ | ⟨-, links, first, rfl⟩
            · simp
            · simp
          rw [SchedState.headResource, SchedState.headResource, hhead, hhead', hawaited]
    rw [hres]
    exact due_of_sent hrun hne
  constructor
  · intro hfirst
    exact hfirst.congr fun other hother =>
      ⟨(hsame other hother).1.symm, (hsame other hother).2.symm⟩
  · intro hfirst
    exact hfirst.congr hsame

/-- What the sweep leaves once it has woken a task ahead of the caller. -/
structure Swept (state : SchedState) (caller : Addr) (waiting : List Addr) (task : Addr)
    (swept : SchedState) : Prop where
  frame : swept.frame = state.frame
  task_mem : task ∈ waiting
  awake : swept.status caller = .ready
  woken : swept.status task = .ready
  status : ∀ other, other ≠ caller → other ≠ task → swept.status other = state.status other
  leads : (swept.links .wait).LeadsTo caller ({other | other ∈ waiting ∧ other ≠ caller} \ {task})
  prev : ∀ other, other ∉ waiting → other ≠ caller →
    swept.prev .wait other = state.prev .wait other

theorem Sent.exists_swept {ticks waitRes : ℕ}
    (hrun : heliosSchedSendToWait (some caller) ticks state = .done sent)
    (hsent : Sent state caller waiting sent) {before : List Addr} {task : Addr}
    (hfirst : FirstDue cfg waitRes (sent.setStatus caller .ready) (ahead caller waiting)
      before task) :
    ∃ swept, heliosSchedSendToResume (some task) (tickWaiting cfg waitRes task
        (tickAll cfg waitRes before (sent.setStatus caller .ready))) = .done swept ∧
      Swept state caller waiting task swept := by
  obtain ⟨pred, succ, swept, hpred, hsucc, hresume, hlinks, hframe, hstatus⟩ :=
    hsent.sweepPath.exists_woken hfirst
  have hmem : task ∈ ahead caller waiting := by
    obtain ⟨after, hsplit⟩ := hfirst.split
    rw [hsplit]
    simp
  obtain ⟨hwaiting, hne⟩ := hsent.threaded.subset task hmem
  rw [SchedState.links_setStatus] at hlinks
  rw [SchedState.prev_setStatus] at hpred
  rw [SchedState.next_setStatus] at hsucc
  refine ⟨swept, hresume, ⟨?_, hwaiting, ?_, ?_, ?_, ?_, ?_⟩⟩
  · rw [hframe, SchedState.frame_setStatus, (frame_of_sendToWaitList hrun).1]
  · rw [hstatus, Function.update_of_ne hne.symm]
    simp
  · rw [hstatus, Function.update_self]
  · intro other hcaller htask
    rw [hstatus, Function.update_of_ne htask]
    exact (@due_of_sent cfg _ _ _ _ 0 hrun _ hcaller).1
  · rw [hlinks]
    exact hsent.threaded.leadsTo_detach hmem hpred hsucc
  · intro other hoff hcaller
    have htask : other ≠ task := fun h => hoff (h ▸ hwaiting)
    have hsucc' : other ≠ succ := by
      rintro rfl
      obtain ⟨after, hsplit⟩ := hfirst.split
      obtain ⟨succ', rest, hafter, hnext, -⟩ := (hsplit ▸ hsent.threaded).exists_next
      obtain rfl : succ' = other := Option.some.inj (hnext.symm.trans hsucc)
      have hbehind : succ' ∈ after ++ [caller] := by simp [hafter]
      rcases List.mem_append.mp hbehind with h | h
      · exact hoff (hsent.threaded.subset succ' (by simp [hsplit, h])).1
      · exact hcaller (List.mem_singleton.mp h)
    have hkeep : swept.prev .wait other = sent.prev .wait other := by
      rw [show swept.prev .wait = (swept.links .wait).prev from rfl, hlinks]
      simp [Links.detach, htask, hsucc']
    exact hkeep.trans (hsent.prev other hoff hcaller)

/-- An algorithm can be run after the sweep and the move of the caller. -/
theorem Swept.schedulable (hcall : Calling state caller ready waiting) {task head : Addr}
    (hswept : Swept state caller waiting task swept) {links : Links Addr}
    (hnext : ∀ task ∈ ready, ∃ succ ∈ ready, links.next task = some succ) :
    Schedulable (swept.putList .ready links (some head)) caller ready where
  curr := by
    rw [SchedState.currTask_putList, SchedState.currTask_of_frame hswept.frame, hcall.curr]
  caller_mem := hcall.caller_mem
  awake := by simpa using hswept.awake
  next := by simpa using hnext
  leads := by
    have hmembers : {other | other ∈ ready ∧ (swept.status other).Blocked} =
        {other | other ∈ waiting ∧ other ≠ caller} \ {task} := by
      ext other
      show other ∈ ready ∧ (swept.status other).Blocked ↔
        (other ∈ waiting ∧ other ≠ caller) ∧ other ≠ task
      by_cases hcaller : other = caller
      · simp [hcaller, hswept.awake, TaskStatus.Blocked]
      by_cases htask : other = task
      · simp [htask, hswept.woken, TaskStatus.Blocked]
      · simp [hcaller, htask, hswept.status other hcaller htask, hcall.blocked]
    simp only [SchedState.status_putList, SchedState.links_wait_putList_ready, hmembers]
    exact hswept.leads

/-- The last task of the ready list, once the caller has been moved, is one the priority
search can start from. -/
def LastUsable (state : SchedState) (caller : Addr) (ready : List Addr) : Prop :=
  ∀ last ∈ (requeue state.priority caller ready).getLast?,
    last = caller ∨ state.status last ≠ .exit ∧ state.status last ≠ .running

instance (state : SchedState) (caller : Addr) (ready : List Addr) :
    Decidable (LastUsable state caller ready) :=
  inferInstanceAs (Decidable (∀ last ∈ (requeue state.priority caller ready).getLast?, _))

section Algorithm

variable {task head last : Addr} {links : Links Addr} (hcall : Calling state caller ready waiting)
  (hswept : Swept state caller waiting task swept)

include hcall hswept

/-- A task that the priority search cannot start from keeps no link to the wait list. -/
theorem Swept.prev_eq_none (hmem : last ∈ ready) (hblocked : ¬ (swept.status last).Blocked)
    (hready : swept.status last ≠ .ready) : swept.prev .wait last = none := by
  have hcaller : last ≠ caller := fun h => hready (h ▸ hswept.awake)
  have htask : last ≠ task := fun h => hready (h ▸ hswept.woken)
  rw [hswept.status last hcaller htask] at hblocked
  have hoff : last ∉ waiting := fun h => hblocked ((hcall.blocked last).mp h).2
  exact (hswept.prev last hoff hcaller).trans (hcall.unlinked last hmem hoff)

/-- Of the tasks that have exited or run, the sweep changes the caller only. -/
theorem Swept.usable_iff :
    (swept.status last ≠ .exit ∧ swept.status last ≠ .running) ↔
      (last = caller ∨ state.status last ≠ .exit ∧ state.status last ≠ .running) := by
  by_cases hcaller : last = caller
  · simp [hcaller, hswept.awake]
  by_cases htask : last = task
  · obtain hblocked | hblocked := ((hcall.blocked task).mp hswept.task_mem).2
    · simp [htask, hswept.woken, hblocked]
    · simp [htask, hswept.woken, hblocked]
  · simp [hcaller, hswept.status last hcaller htask]

/-- After the sweep and the move of the caller the algorithm returns, the priority search only
if it can start. -/
theorem Swept.returns_algorithm_iff {algo : SchedAlgo} (halgo : state.selectedSched = some algo)
    (hlast : (requeue state.priority caller ready).getLast? = some last) (hmem : last ∈ ready)
    (hprev : links.prev head = some last)
    (hnext : ∀ task ∈ ready, ∃ succ ∈ ready, links.next task = some succ) :
    (∃ state', Returns (fun fuel =>
        runSelectedSched fuel (swept.putList .ready links (some head))) state') ↔
      (algo = .priorityDriven → LastUsable state caller ready) := by
  have hsched := @Swept.schedulable state caller ready waiting swept hcall task head hswept _ hnext
  have halgo' : (swept.putList .ready links (some head)).selectedSched = some algo :=
    (congrArg (fun s => s.selectedSched) hswept.frame).trans halgo
  simp only [runSelectedSched, halgo']
  cases algo with
  | roundRobin =>
      obtain ⟨state', hrun⟩ := hsched.exists_roundRobin
      exact ⟨fun _ h => by simp at h, fun _ => ⟨state', 0, hrun⟩⟩
  | priorityDriven =>
      have hsearch := hsched.returns_priorityDriven_iff rfl (by simpa using hprev) hmem
        (by simpa using hswept.prev_eq_none hcall hmem)
      simp only [SchedState.status_putList] at hsearch
      rw [hsearch, hswept.usable_iff hcall, LastUsable, hlast]
      simp

/-- After the sweep the call returns, with the priority algorithm only if the search can start. -/
theorem Swept.returns_iff {algo : SchedAlgo} (halgo : state.selectedSched = some algo) :
    (∃ state' moved, Returns (fun fuel =>
        heliosSchedSendBackOfTaskPrio fuel swept.currTask swept) moved ∧
      Returns (fun fuel => runSelectedSched fuel moved.2) state') ↔
      (algo = .priorityDriven → LastUsable state caller ready) := by
  have hlist : swept.ListIs .ready ready := hcall.readyList.of_frame hswept.frame
  obtain ⟨links, head, last, hback, hlast, hmem, hprev, hnext⟩ :=
    exists_sendBack hlist hcall.caller_mem
  rw [SchedState.priority_of_frame hswept.frame] at hlast
  rw [(SchedState.currTask_of_frame hswept.frame).trans hcall.curr,
    ← hswept.returns_algorithm_iff hcall halgo hlast hmem hprev hnext]
  constructor
  · rintro ⟨state', moved, hmoved, hrun⟩
    obtain rfl := hmoved.unique (fuelMono_sendBackOfTaskPrio _ _) hback
    exact ⟨state', hrun⟩
  · rintro ⟨state', hrun⟩
    exact ⟨state', _, hback, hrun⟩

end Algorithm

end Returning

/-! ## Whether the caller sleeps -/

section Sleeping

variable {ready waiting : List Addr} {ticks : ℕ} {algo : SchedAlgo}

/-- The resource that the task waits for is there. -/
def ResourceThere (state : SchedState) (task : Addr) : Prop :=
  state.awaited task ≠ 0 ∧ 0 < state.resource (state.awaited task)

/-- The task waits, and is on the wait list. -/
def Asleep (state : SchedState) (task : Addr) : Prop :=
  state.status task = .wait ∧ ∃ queue, state.ListIs .wait queue ∧ task ∈ queue

/-- `helios_task_wait` returns, and its caller then sleeps unless it has no ticks left or its
resource is there. -/
def SleepsUntilReleased (cfg : HeliosConfig) (ticks : ℕ) (caller : Addr) (state : SchedState) :
    Prop :=
  ∃ state', Returns (fun fuel => heliosTaskWait cfg fuel ticks state) state' ∧
    (Asleep state' caller ∨ state'.delay caller = 0 ∨ ResourceThere state' caller)

/-- The caller has no reason to wait: it waits already and has no ticks left, or its resource
is there. -/
def ReleasedBefore (state : SchedState) (caller : Addr) : Prop :=
  (state.status caller = .wait ∧ state.delay caller = 0) ∨ ResourceThere state caller

/-- The wait list holds a due task ahead of the caller, and only waiting tasks before that. -/
def SweepEnds (cfg : HeliosConfig) (caller : Addr) (waiting : List Addr) (state : SchedState) :
    Prop :=
  ∃ before task, FirstDue cfg state.headResource state (ahead caller waiting) before task

/-- The call returns exactly when the sweep ends before it has reached the caller and the
priority search, if that is the algorithm, can start. -/
theorem exists_returns_taskWait_iff (hoption : cfg.antiDeadlock = false)
    (hcall : Calling state caller ready waiting) (halgo : state.selectedSched = some algo)
    (hticks : 0 < ticks) :
    (∃ state', Returns (fun fuel => heliosTaskWait cfg fuel ticks state) state') ↔
      SweepEnds cfg caller waiting state ∧
        (algo = .priorityDriven → LastUsable state caller ready) := by
  obtain ⟨sent, hrun, hsent⟩ := @exists_sent state caller waiting hcall.waitList .wait
    (fun h => (hcall.blocked caller).mpr ⟨hcall.caller_mem, .inl h⟩) ticks
  have hiff : ∀ swept, Returns (fun fuel =>
      heliosSchedWaitListAdjustment cfg fuel (sent.setStatus caller .ready)) swept ↔ _ :=
    fun swept => @returns_waitListAdjustment_iff cfg _ swept _ _ hsent.sweepPath hsent.head
  constructor
  · rintro ⟨state', hreturns⟩
    obtain ⟨swept, hsweep, moved, hback, hsched⟩ :=
      (returns_taskWait_iff hoption hcall hticks hrun).mp hreturns
    obtain ⟨before, task, hfirst, hresume⟩ := (hiff swept).mp hsweep
    obtain ⟨swept', hresume', hswept⟩ := hsent.exists_swept hrun hfirst
    obtain rfl : swept = swept' := Outcome.done.inj (hresume.symm.trans hresume')
    refine ⟨⟨before, task, (hsent.firstDue_iff hcall.waitList hrun).mp hfirst⟩, ?_⟩
    exact (hswept.returns_iff hcall halgo).mp ⟨state', moved, hback, hsched⟩
  · rintro ⟨⟨before, task, hfirst⟩, husable⟩
    have hfirst' := (hsent.firstDue_iff hcall.waitList hrun).mpr hfirst
    obtain ⟨swept, hresume, hswept⟩ := hsent.exists_swept hrun hfirst'
    obtain ⟨state', moved, hback, hsched⟩ := (hswept.returns_iff hcall halgo).mpr husable
    refine ⟨state', (returns_taskWait_iff hoption hcall hticks hrun).mpr ⟨swept, ?_, moved, hback,
      hsched⟩⟩
    exact (hiff swept).mpr ⟨before, task, hfirst', hresume⟩

/-- A call that returns leaves its caller awake, with the ticks it was given, or had if it was
waiting already, and the resource it waits for unchanged. -/
theorem awakeWith_of_taskWait (hoption : cfg.antiDeadlock = false)
    (hcurr : state.currTask = some caller) (hticks : 0 < ticks)
    (hreturns : Returns (fun fuel => heliosTaskWait cfg fuel ticks state) state') :
    AwakeWith caller (if state.status caller = .wait then state.delay caller else ticks)
      (state.awaited caller) state.resource state' := by
  obtain ⟨fuel, hrun⟩ := hreturns
  simp only [heliosTaskWait, if_pos hticks, hcurr] at hrun
  obtain ⟨sent, hsend, hrun⟩ := Outcome.bind_eq_done_iff.mp hrun
  have hcurr' : sent.currTask = some caller :=
    (SchedState.currTask_of_frame (frame_of_sendToWaitList hsend).1).trans hcurr
  have hawake := awakeWith_of_despatch hoption hcurr' hrun
  rcases sendToWaitList_cases hsend with ⟨hwait, rfl⟩ | ⟨hwait, links, head, rfl⟩
  · rw [if_pos hwait]
    exact hawake
  · rw [if_neg hwait]
    exact ⟨hawake.awake, by simpa using hawake.delay, by simpa using hawake.awaited,
      hawake.resource⟩

/-- The caller sleeps until it is released if and only if it was released before it called,
and the call returns. -/
theorem sleepsUntilReleased_iff (hoption : cfg.antiDeadlock = false)
    (hcall : Calling state caller ready waiting) (halgo : state.selectedSched = some algo)
    (hticks : 0 < ticks) :
    SleepsUntilReleased cfg ticks caller state ↔
      ReleasedBefore state caller ∧ SweepEnds cfg caller waiting state ∧
        (algo = .priorityDriven → LastUsable state caller ready) := by
  rw [← exists_returns_taskWait_iff hoption hcall halgo hticks]
  have hreleased : ∀ state', Returns (fun fuel => heliosTaskWait cfg fuel ticks state) state' →
      (Asleep state' caller ∨ state'.delay caller = 0 ∨ ResourceThere state' caller ↔
        ReleasedBefore state caller) := by
    intro state' hreturns
    obtain ⟨hawake, hdelay, hawaited, hresource⟩ :=
      awakeWith_of_taskWait hoption hcall.curr hticks hreturns
    have hasleep : ¬ Asleep state' caller := fun h => hawake (.inl h.1)
    have hticks' : state'.delay caller = 0 ↔
        state.status caller = .wait ∧ state.delay caller = 0 := by
      rw [hdelay]
      split
      · next hwait => simp [hwait]
      · next hwait => simp [hwait, hticks.ne']
    rw [or_iff_right hasleep, hticks', ReleasedBefore, ResourceThere, ResourceThere, hawaited,
      hresource]
  constructor
  · rintro ⟨state', hreturns, hcases⟩
    exact ⟨(hreleased state' hreturns).mp hcases, state', hreturns⟩
  · rintro ⟨hbefore, state', hreturns⟩
    exact ⟨state', hreturns, (hreleased state' hreturns).mpr hbefore⟩

end Sleeping

/-- Two tasks: the resource of the current one is there, the other waits for its last tick. -/
def waitingPair : SchedState :=
  { (((readyPair.setResource 1 7).setDelay 2 1).setStatus 2 .wait).putList .wait
      ((readyPair.links .wait).alone 2) (some 2) with
    resource := fun _ => 1
    selectedSched := some .priorityDriven }

theorem waitingPair_calling : Calling waitingPair 1 [1, 2] [2] where
  curr := rfl
  preSched := rfl
  readyList := ⟨⟨by decide, .cons_cons ⟨rfl, rfl⟩ (.cons_cons ⟨rfl, rfl⟩ (.singleton 1))⟩, rfl⟩
  caller_mem := by decide
  waitList := ⟨⟨by decide, .cons_cons ⟨rfl, rfl⟩ (.singleton 2)⟩, rfl⟩
  blocked := fun task => by
    by_cases hfirst : task = 1
    · subst hfirst
      decide
    by_cases hsecond : task = 2
    · subst hsecond
      decide
    · simp [hfirst, hsecond]
  unlinked := by decide

theorem sleepsUntilReleased_waitingPair :
    SleepsUntilReleased (defaultConfig false) 5 1 waitingPair :=
  (sleepsUntilReleased_iff rfl waitingPair_calling rfl (by decide)).mpr
    ⟨.inr ⟨by decide, by decide⟩,
      ⟨[], 2, ⟨[], rfl⟩, by simp, rfl, .inl (by decide)⟩, fun _ => by decide⟩

/-- A task that is not on the wait list of an otherwise ready pair goes to sleep and never
comes back. -/
theorem exists_not_sleepsUntilReleased :
    Calling readyPair 1 [1, 2] [] ∧ readyPair.selectedSched = some .roundRobin ∧
      ¬ SleepsUntilReleased (defaultConfig false) 5 1 readyPair := by
  have hcall : Calling readyPair 1 [1, 2] [] := by
    refine ⟨rfl, rfl, readyPair_listIs, by decide, ⟨Links.ring_nil, rfl⟩, fun task => ?_, by decide⟩
    by_cases hfirst : task = 1
    · subst hfirst
      decide
    by_cases hsecond : task = 2
    · subst hsecond
      decide
    · simp [hfirst, hsecond]
  refine ⟨hcall, rfl, ?_⟩
  rintro ⟨state', hreturns, -⟩
  obtain ⟨⟨before, task, hfirst⟩, -⟩ :=
    (exists_returns_taskWait_iff rfl hcall rfl (by decide)).mp ⟨state', hreturns⟩
  obtain ⟨after, hsplit⟩ := hfirst.split
  simp [ahead] at hsplit

end Cyancore.Helios
