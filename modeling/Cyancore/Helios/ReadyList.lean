/-
# The ready list

The ready list holds every task in order of priority.  This module follows the
loops of the source along it: the search for a place by priority, which turns
`_helios_sched_send_back_of_task_prio` into a stable insertion, and the sweeps of
`helios_pause_all_task` and `helios_resume_all_task`, which move all tasks onto the
wait list and off it again.
-/

import Cyancore.Helios.Frames
import Cyancore.Helios.Fuel
import Cyancore.Math.StableInsert

namespace Cyancore.Helios

open Cyancore.Math

variable {state state' : SchedState}

/-! ## Walking along the list -/

/-- The listed tasks follow each other on the ready list, and the last is followed by the
head of the list. -/
def ReadyWalk (state : SchedState) : List Addr → Prop
  | [] => False
  | [task] => state.next .ready task = state.readyListHead
  | task :: succ :: rest =>
      state.next .ready task = some succ ∧ some succ ≠ state.readyListHead ∧
        ReadyWalk state (succ :: rest)

theorem ReadyWalk.of_frame (hframe : state'.frame = state.frame) {nodes : List Addr}
    (hwalk : ReadyWalk state nodes) : ReadyWalk state' nodes := by
  induction nodes with
  | nil => exact hwalk
  | cons task rest ih =>
      cases rest with
      | nil =>
          rw [ReadyWalk, SchedState.next_ready_of_frame hframe,
            SchedState.readyListHead_of_frame hframe]
          exact hwalk
      | cons succ rest =>
          rw [ReadyWalk, SchedState.next_ready_of_frame hframe,
            SchedState.readyListHead_of_frame hframe]
          exact ⟨hwalk.1, hwalk.2.1, ih hwalk.2.2⟩

/-- Every end piece of the ready list is a walk. -/
theorem SchedState.ListIs.readyWalk_append (front : List Addr) {back : List Addr}
    (hlist : state.ListIs .ready (front ++ back)) (hback : back ≠ []) :
    ReadyWalk state back := by
  have hhead : state.readyListHead = (front ++ back).head? := hlist.head
  induction back generalizing front with
  | nil => exact absurd rfl hback
  | cons task rest ih =>
      cases rest with
      | nil =>
          obtain ⟨head, hhead'⟩ : ∃ head, (front ++ [task]).head? = some head :=
            ⟨_, List.head?_eq_some_head (by simp)⟩
          rw [ReadyWalk, hhead, hhead']
          exact (hlist.ring.joined_last hhead').1
      | cons succ rest =>
          have hjoined := Links.Ring.joined_of_split front rest hlist.ring
          have hsplit : front ++ task :: succ :: rest = (front ++ [task]) ++ succ :: rest := by simp
          rw [hsplit] at hlist hhead
          refine ⟨hjoined.1, ?_, ih (front ++ [task]) hlist (by simp) hhead⟩
          rw [hhead, List.head?_append_of_ne_nil _ (by simp)]
          intro h
          exact List.disjoint_of_nodup_append hlist.ring.nodup
            (List.mem_of_mem_head? h.symm) List.mem_cons_self

theorem SchedState.ListIs.readyWalk {queue : List Addr} (hlist : state.ListIs .ready queue)
    (hqueue : queue ≠ []) : ReadyWalk state queue :=
  SchedState.ListIs.readyWalk_append [] hlist hqueue

/-- A walk is determined by its first task. -/
theorem ReadyWalk.unique {first second : List Addr} (hfirst : ReadyWalk state first)
    (hsecond : ReadyWalk state second) (hhead : first.head? = second.head?) : first = second := by
  induction first generalizing second with
  | nil => exact hfirst.elim
  | cons task rest ih =>
      cases second with
      | nil => exact hsecond.elim
      | cons task' rest' =>
          obtain rfl : task = task' := Option.some.inj hhead
          cases rest with
          | nil =>
              cases rest' with
              | nil => rfl
              | cons succ rest' =>
                  exact absurd (hsecond.1.symm.trans hfirst) hsecond.2.1
          | cons succ rest =>
              cases rest' with
              | nil => exact absurd (hfirst.1.symm.trans hsecond) hfirst.2.1
              | cons succ' rest' =>
                  have hsucc : some succ = some succ' := hfirst.1.symm.trans hsecond.1
                  rw [ih hfirst.2.2 hsecond.2.2 hsucc]

/-- A state has one ready list. -/
theorem SchedState.ListIs.ready_unique {first second : List Addr}
    (hfirst : state.ListIs .ready first) (hsecond : state.ListIs .ready second) :
    first = second := by
  have hhead : first.head? = second.head? := hfirst.head.symm.trans hsecond.head
  by_cases hnil : first = []
  · subst hnil
    exact (List.head?_eq_none_iff.mp hhead.symm).symm
  · have hnil' : second ≠ [] := by
      rintro rfl
      exact hnil (List.head?_eq_none_iff.mp hhead)
    exact (hfirst.readyWalk hnil).unique (hsecond.readyWalk hnil') hhead

/-! ## The place of a task by its priority -/

/-- The search stops at the first task of a larger priority value, or at the head once it
has gone round; it has found the new least priority when it never moved. -/
theorem returns_prioLoop {node : Addr} {front back : List Addr} {least : Bool}
    (hwalk : ReadyWalk state (front ++ back))
    (hfront : ∀ task ∈ front, state.priority task ≤ state.priority node)
    (hback : ∀ task ∈ back.head?, state.priority node < state.priority task) :
    Returns (fun fuel => loop (prioTurn state node) fuel ((front ++ back).head?, least))
      (back.head?.or state.readyListHead, least && front.isEmpty) := by
  induction front generalizing least with
  | nil =>
      cases back with
      | nil => exact hwalk.elim
      | cons ref back =>
          have hlt : ¬ (state.tcb ref).priority ≤ (state.tcb node).priority :=
            not_le.mpr (hback ref rfl)
          have hturn : prioTurn state node (some ref, least) = .done (.exit (some ref, least)) := by
            simp [prioTurn, hlt]
          exact (returns_loop_of_exit hturn).mpr (by simp)
  | cons task front ih =>
      have hle : (state.tcb task).priority ≤ (state.tcb node).priority :=
        hfront task List.mem_cons_self
      have hrest := fun other h => hfront other (List.mem_cons_of_mem task h)
      cases hnodes : front ++ back with
      | nil =>
          obtain ⟨rfl, rfl⟩ := List.append_eq_nil_iff.mp hnodes
          have hnext : state.next .ready task = state.readyListHead := hwalk
          have hturn : prioTurn state node (some task, least) =
              .done (.exit (state.readyListHead, false)) := by
            simp [prioTurn, hle, hnext]
          exact (returns_loop_of_exit hturn).mpr (by simp)
      | cons succ rest =>
          rw [List.cons_append, hnodes] at hwalk
          obtain ⟨hnext, hhead, hwalk⟩ := hwalk
          have hturn : prioTurn state node (some task, least) =
              .done (.next ((front ++ back).head?, false)) := by
            simp [prioTurn, hle, hnext, hhead, hnodes]
          rw [← hnodes] at hwalk
          refine (returns_loop_of_next hturn).mpr ?_
          simpa using @ih false hwalk hrest

/-- Where a new task is linked in, in each of the three outcomes of the search. -/
theorem insertBefore_place {node : Addr} {front back : List Addr}
    (hlist : state.ListIs .ready (front ++ back)) (hqueue : front ++ back ≠ [])
    (hfresh : node ∉ front ++ back) (head : Option Addr) :
    ∃ links : Links Addr, links.Ring (front ++ node :: back) ∧
      ∃ ref, heliosSchedInsertBefore (back.head?.or state.readyListHead) (some node) .ready
          (state.putList .ready (state.links .ready) head) =
        .done (.success, ref, state.putList .ready links head) := by
  have hhead : state.readyListHead = (front ++ back).head? := hlist.head
  cases back with
  | nil =>
      cases front with
      | nil => exact absurd rfl hqueue
      | cons ref rest =>
          rw [List.append_nil] at hlist hfresh hhead
          obtain ⟨pred, -, hpred⟩ := hlist.ring.exists_prev List.mem_cons_self
          have hne : node ≠ ref := fun h => hfresh (by simp [h])
          refine ⟨_, hlist.ring.insertBefore_head hfresh hpred.2, some ref, ?_⟩
          rw [hhead]
          simpa using @heliosSchedInsertBefore_of_some
            (state.putList .ready (state.links .ready) head) .ready ref pred node hne hpred.2
  | cons ref back =>
      obtain ⟨pred, -, hpred⟩ := hlist.ring.exists_prev (a := ref) (by simp)
      have hne : node ≠ ref := fun h => hfresh (by simp [h])
      refine ⟨_, hlist.ring.insertBefore hfresh hpred.2, some ref, ?_⟩
      simpa using @heliosSchedInsertBefore_of_some
        (state.putList .ready (state.links .ready) head) .ready ref pred node hne hpred.2

/-- Sending a new task to the back of its priority inserts it stably by priority. -/
theorem returns_sendBackOfTaskPrio_of_fresh {node : Addr} {queue : List Addr}
    (hlist : state.ListIs .ready queue) (hqueue : queue ≠ []) (hfresh : node ∉ queue)
    (hsorted : KeySorted state.priority queue)
    (hnew : state.next .ready node = state.prev .ready node) :
    ∃ links : Links Addr, links.Ring (insertByKey state.priority node queue) ∧
      Returns (fun fuel => heliosSchedSendBackOfTaskPrio fuel (some node) state)
        (.success, state.putList .ready links (insertByKey state.priority node queue).head?) := by
  obtain ⟨front, back, rfl, hfront, hback⟩ := hsorted.exists_split node
  have hplace : ∀ task ∈ back.head?, state.priority node < state.priority task :=
    fun task h => hback task (List.mem_of_mem_head? h)
  have hwalk := hlist.readyWalk hqueue
  obtain ⟨fuel, hloop⟩ := @returns_prioLoop _ _ _ _ true hwalk hfront hplace
  have hhead : state.readyListHead = (front ++ back).head? := hlist.head
  obtain ⟨links, hring, ref, hinsert⟩ :=
    insertBefore_place hlist hqueue hfresh (front ++ node :: back).head?
  rw [insertByKey_eq_append _ _ hfront hplace]
  refine ⟨links, hring, fuel, ?_⟩
  have hnone : state.readyListHead ≠ none := by simpa [hhead] using hqueue
  have hother : some node ≠ state.readyListHead := fun h =>
    hfresh (List.mem_of_mem_head? (h.trans hhead).symm)
  have hmove : (if front.isEmpty then { state with readyListHead := some node } else state) =
      state.putList .ready (state.links .ready) (front ++ node :: back).head? := by
    cases front with
    | nil => rfl
    | cons task front =>
        have hkeep : state.readyListHead = some task := hhead
        rw [List.cons_append, List.head?_cons, ← hkeep]
        rfl
  rw [← hhead] at hloop
  simp only [heliosSchedSendBackOfTaskPrio, if_neg hnone, if_neg hother, hloop, Outcome.done_bind,
    Bool.true_and, hmove, SchedState.next_putList_self, SchedState.prev_putList_self,
    SchedState.links_next, SchedState.links_prev, if_pos hnew, hinsert, Outcome.pure_eq]

/-! ## Pausing and resuming every task -/

/-- Pausing a task that is not on the wait list. -/
theorem exists_sendToPause (cfg : HeliosConfig) {task : Addr} {queue : List Addr}
    (hlist : state.ListIs .wait queue) (hfresh : task ∉ queue)
    (hstatus : state.status task ≠ .pause) :
    ∃ paused, heliosSchedSendToPause cfg (some task) state = .done paused ∧
      paused.ListIs .wait (queue ++ [task]) ∧ paused.frame = state.frame ∧
      paused.status = Function.update state.status task .pause := by
  obtain ⟨links, hring, hrun⟩ := sendToWaitList_of_notMem hlist hfresh hstatus cfg.delayMax
  refine ⟨_, hrun, listIs_wait_putList hring cfg.delayMax .pause, ?_, ?_⟩
  · simp
  · simp

/-- The sweep of `helios_pause_all_task` over tasks that are not on the wait list appends
them to it in order. -/
theorem returns_pauseAllLoop (cfg : HeliosConfig) {rest queue : List Addr}
    (hwalk : ReadyWalk state rest) (hnodup : rest.Nodup)
    (hcurr : ∀ task ∈ rest, some task ≠ state.currTask) (hlist : state.ListIs .wait queue)
    (hfresh : ∀ task ∈ rest, task ∉ queue) (hstatus : ∀ task ∈ rest, state.status task ≠ .pause) :
    ∃ state', Returns (fun fuel => loop (pauseAllTurn cfg) fuel (rest.head?, state)) state' ∧
      state'.ListIs .wait (queue ++ rest) ∧ state'.frame = state.frame ∧
      ∀ task, state'.status task = if task ∈ rest then .pause else state.status task := by
  induction rest generalizing state queue with
  | nil => exact hwalk.elim
  | cons task rest ih =>
      obtain ⟨htask, hnodup⟩ := List.nodup_cons.mp hnodup
      obtain ⟨paused, hrun, hlist', hframe, hstatus'⟩ := exists_sendToPause cfg hlist
        (hfresh task List.mem_cons_self) (hstatus task List.mem_cons_self)
      have hmoved : some task ≠ state.currTask := hcurr task List.mem_cons_self
      have hnext := SchedState.next_ready_of_frame hframe
      have hhead := SchedState.readyListHead_of_frame hframe
      cases rest with
      | nil =>
          have hturn : pauseAllTurn cfg (some task, state) = .done (.exit paused) := by
            simp [pauseAllTurn, hmoved, hrun, hnext, hhead,
              show state.next .ready task = state.readyListHead from hwalk]
          refine ⟨paused, (returns_loop_of_exit hturn).mpr rfl, hlist', hframe, fun other => ?_⟩
          simp [hstatus', Function.update_apply]
      | cons succ rest =>
          obtain ⟨hsucc, hne, hwalk⟩ := hwalk
          have hturn : pauseAllTurn cfg (some task, state) = .done (.next (some succ, paused)) := by
            simp [pauseAllTurn, hmoved, hrun, hnext, hhead, hsucc, hne]
          have hother : ∀ other ∈ succ :: rest, other ≠ task := fun other h heq =>
            htask (heq ▸ h)
          obtain ⟨final, hfinal, hlist'', hframe', hstatus''⟩ :=
            ih (hwalk.of_frame hframe) hnodup
              (fun other h => by
                rw [SchedState.currTask_of_frame hframe]
                exact hcurr other (List.mem_cons_of_mem task h))
              hlist'
              (fun other h => by
                simpa [hother other h] using hfresh other (List.mem_cons_of_mem task h))
              (fun other h => by
                simpa [hstatus', hother other h] using
                  hstatus other (List.mem_cons_of_mem task h))
          refine ⟨final, (returns_loop_of_next hturn).mpr hfinal, by simpa using hlist'',
            hframe'.trans hframe, fun other => ?_⟩
          rw [hstatus'', hstatus']
          by_cases heq : other = task
          · subst heq
            simp
          · simp [heq]

/-- Resuming a task that is on the wait list exactly when it is blocked. -/
theorem heliosSchedSendToResume_of_mem_iff {queue : List Addr} {task : Addr}
    (hlist : state.ListIs .wait queue) (hmem : task ∈ queue ↔ (state.status task).Blocked) :
    ∃ state', heliosSchedSendToResume (some task) state = .done state' ∧
      state'.ListIs .wait (queue.erase task) ∧ state'.frame = state.frame ∧
      state'.status = Function.update state.status task (state.status task).resumed := by
  by_cases hblocked : (state.status task).Blocked
  · obtain ⟨links, hring, -, hrun⟩ :=
      heliosSchedSendToResume_of_mem hlist (hmem.mpr hblocked) hblocked
    refine ⟨_, hrun, listIs_wait_putList hring 0 .ready, by simp, ?_⟩
    simp [TaskStatus.resumed, hblocked]
  · refine ⟨state, heliosSchedSendToResume_of_not_blocked hblocked, ?_, rfl, ?_⟩
    · rwa [List.erase_of_not_mem (mt hmem.mp hblocked)]
    · simp [TaskStatus.resumed, hblocked]

/-- The sweep of `helios_resume_all_task` takes every task it passes off the wait list. -/
theorem returns_resumeAllLoop {task head : Addr} {rest queue : List Addr}
    (hwalk : ReadyWalk state (task :: rest)) (hhead : state.readyListHead = some head)
    (hlist : state.ListIs .wait queue)
    (hmem : ∀ other ∈ rest ++ [head], other ∈ queue ↔ (state.status other).Blocked) :
    ∃ state', Returns (fun fuel => loop resumeAllTurn fuel (some task, state)) state' ∧
      state'.ListIs .wait (queue.diff (rest ++ [head])) ∧ state'.frame = state.frame ∧
      ∀ other, state'.status other =
        if other ∈ rest ++ [head] then (state.status other).resumed else state.status other := by
  induction rest generalizing state queue task with
  | nil =>
      obtain ⟨resumed, hrun, hlist', hframe, hstatus⟩ :=
        heliosSchedSendToResume_of_mem_iff hlist (hmem head (by simp))
      have hnext : state.next .ready task = some head := hhead ▸ hwalk
      have hturn : resumeAllTurn (some task, state) = .done (.exit resumed) := by
        simp [resumeAllTurn, hnext, hrun, SchedState.readyListHead_of_frame hframe, hhead]
      refine ⟨resumed, (returns_loop_of_exit hturn).mpr rfl, by simpa using hlist', hframe, ?_⟩
      intro other
      rw [hstatus, Function.update_apply]
      by_cases heq : other = head
      · simp [heq]
      · simp [heq]
  | cons succ rest ih =>
      obtain ⟨hnext, hne, hwalk⟩ := hwalk
      obtain ⟨resumed, hrun, hlist', hframe, hstatus⟩ :=
        heliosSchedSendToResume_of_mem_iff hlist (hmem succ (by simp))
      have hhead' := (SchedState.readyListHead_of_frame hframe).trans hhead
      have hturn : resumeAllTurn (some task, state) = .done (.next (some succ, resumed)) := by
        simp [resumeAllTurn, hnext, hrun, hhead', ← hhead, hne]
      have hmem' : ∀ other ∈ rest ++ [head],
          other ∈ queue.erase succ ↔ (resumed.status other).Blocked := by
        intro other hother
        rw [hstatus, Function.update_apply, List.Nodup.mem_erase_iff hlist.ring.nodup]
        by_cases heq : other = succ
        · simp [heq]
        · simpa [heq] using hmem other (List.mem_cons_of_mem succ hother)
      obtain ⟨final, hfinal, hlist'', hframe', hstatus'⟩ :=
        ih (hwalk.of_frame hframe) hhead' hlist' hmem'
      refine ⟨final, (returns_loop_of_next hturn).mpr hfinal, ?_, hframe'.trans hframe, ?_⟩
      · rwa [List.cons_append, List.diff_cons]
      intro other
      rw [hstatus', hstatus, Function.update_apply]
      by_cases heq : other = succ
      · simp [heq]
      · simp [heq]

/-- Pausing all tasks, none of which is blocked or current, makes the wait list a copy of
the ready list. -/
theorem eventually_pauseAll (cfg : HeliosConfig) {queue : List Addr}
    (hready : state.ListIs .ready queue) (hwait : state.ListIs .wait [])
    (hcurr : ∀ task ∈ queue, some task ≠ state.currTask)
    (hstatus : ∀ task ∈ queue, state.status task ≠ .pause) :
    ∃ state', (∃ enough, ∀ fuel, enough ≤ fuel →
        heliosPauseAllTask cfg fuel state = .done (.success, state')) ∧
      state'.ListIs .wait queue ∧ state'.frame = state.frame ∧
      ∀ task, state'.status task = if task ∈ queue then .pause else state.status task := by
  have hhead : state.readyListHead = queue.head? := hready.head
  by_cases hqueue : queue = []
  · subst hqueue
    refine ⟨state, ⟨0, fun fuel _ => ?_⟩, hwait, rfl, by simp⟩
    simp [heliosPauseAllTask, show state.readyListHead = none from hhead]
  · obtain ⟨paused, hloop, hlist, hframe, hstatus'⟩ :=
      returns_pauseAllLoop cfg (hready.readyWalk hqueue) hready.ring.nodup hcurr hwait (by simp)
        hstatus
    obtain ⟨enough, henough⟩ := hloop.eventually (fuelMono_loop _ _)
    have hnone : state.readyListHead ≠ none := by simpa [hhead] using hqueue
    refine ⟨paused, ⟨enough, fun fuel hle => ?_⟩, by simpa using hlist, hframe, hstatus'⟩
    rw [heliosPauseAllTask, if_neg hnone, hhead, henough fuel hle]
    rfl

/-- Resuming all tasks takes those of the ready list off the wait list. -/
theorem eventually_resumeAll {queue waiting : List Addr} (hqueue : queue ≠ [])
    (hready : state.ListIs .ready queue) (hwait : state.ListIs .wait waiting)
    (hmem : ∀ task ∈ queue, task ∈ waiting ↔ (state.status task).Blocked) :
    ∃ state', (∃ enough, ∀ fuel, enough ≤ fuel →
        heliosResumeAllTask fuel state = .done (.success, state')) ∧
      (∃ waiting', state'.ListIs .wait waiting' ∧
        ∀ task, task ∈ waiting' ↔ task ∈ waiting ∧ task ∉ queue) ∧
      state'.frame = state.frame ∧
      ∀ task, state'.status task =
        if task ∈ queue then (state.status task).resumed else state.status task := by
  cases queue with
  | nil => exact absurd rfl hqueue
  | cons head rest =>
      have hhead : state.readyListHead = some head := hready.head
      have hround : ∀ task, task ∈ rest ++ [head] ↔ task ∈ head :: rest := by
        intro task
        simp [or_comm]
      obtain ⟨resumed, hloop, hlist, hframe, hstatus⟩ :=
        returns_resumeAllLoop (hready.readyWalk hqueue) hhead hwait
          fun task h => hmem task ((hround task).mp h)
      obtain ⟨enough, henough⟩ := hloop.eventually (fuelMono_loop _ _)
      refine ⟨resumed, ⟨enough, fun fuel hle => ?_⟩, ⟨_, hlist, fun task => ?_⟩, hframe, ?_⟩
      · rw [heliosResumeAllTask, hhead, if_neg (by simp), henough fuel hle]
        rfl
      · rw [hwait.ring.nodup.mem_sdiff_iff, hround]
      · intro task
        simp only [hstatus, hround]

/-- Two ready tasks with ids 1 and 2, of which the first is current. -/
def readyPair : SchedState :=
  { bootState (fun addr =>
      if addr = 1 then
        { Tcb.zero with
          taskId := 1, readyLink := ⟨some 2, some 2⟩, taskStatus := .ready }
      else if addr = 2 then
        { Tcb.zero with
          taskId := 2, readyLink := ⟨some 1, some 1⟩, taskStatus := .ready }
      else Tcb.zero) (fun _ => 0) [] with
    readyListHead := some 1
    currTask := some 1
    preSched := true }

theorem readyPair_listIs : readyPair.ListIs .ready [1, 2] :=
  ⟨⟨by decide, .cons_cons ⟨rfl, rfl⟩ (.cons_cons ⟨rfl, rfl⟩ (.singleton 1))⟩, rfl⟩

end Cyancore.Helios
