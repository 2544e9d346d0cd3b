/-
# The sweep of the wait list

`__helios_sched_wait_list_adjustment` walks the wait list from its head.  A task
that is not waiting is not stepped over, so the sweep stays there for ever; a task
that is resumed has lost its links, so the sweep ends after the first one.  On the
way to the task that called the scheduler, whose status has been reset to ready,
the sweep therefore returns exactly when it meets a due task first and only waiting
tasks before that.
-/

import Cyancore.Helios.Wake
import Cyancore.Math.Thread

namespace Cyancore.Helios

open Cyancore.Math

variable {cfg : HeliosConfig} {state state' : SchedState} {waitRes : ℕ} {task : Addr}

/-! ## The countdown of one task -/

/-- The countdown of the task ends at its next tick; `waitRes` is the resource that the sweep
looks at. -/
def Due (cfg : HeliosConfig) (waitRes : ℕ) (state : SchedState) (task : Addr) : Prop :=
  cfg.sizePred (state.delay task) = 0 ∨ (waitRes ≠ 0 ∧ 0 < state.resource waitRes)

instance (cfg : HeliosConfig) (waitRes : ℕ) (state : SchedState) (task : Addr) :
    Decidable (Due cfg waitRes state task) :=
  inferInstanceAs (Decidable (_ ∨ _))

@[simp]
theorem links_tickWaiting (linkType : LinkType) :
    (tickWaiting cfg waitRes task state).links linkType = state.links linkType := by
  rw [tickWaiting]
  split
  · simp
  · simp

@[simp]
theorem waitListHead_tickWaiting :
    (tickWaiting cfg waitRes task state).waitListHead = state.waitListHead := by
  rw [tickWaiting]
  split
  · rfl
  · rfl

theorem tickWaiting_of_not_due (hdue : ¬ Due cfg waitRes state task) :
    tickWaiting cfg waitRes task state =
      state.setDelay task (cfg.sizePred (state.delay task)) :=
  if_neg fun h => hdue (.inr h)

theorem delay_tickWaiting_eq_zero_iff :
    (tickWaiting cfg waitRes task state).delay task = 0 ↔ Due cfg waitRes state task := by
  rw [tickWaiting, Due]
  split
  · next h =>
      have hpositive : waitRes ≠ 0 ∧ 0 < state.resource waitRes := h
      simp [hpositive]
  · next h =>
      have hpositive : ¬ (waitRes ≠ 0 ∧ 0 < state.resource waitRes) := h
      rw [or_iff_left hpositive, SchedState.delay_setDelay, Function.update_self]
      rfl

/-! ## The way to the caller -/

/-- The listed tasks lead along the wait list to the caller, which is not waiting; the head
of the list is the first of them or lies behind. -/
structure SweepPath (state : SchedState) (caller : Addr) (tasks : List Addr) : Prop where
  forward : (tasks ++ [caller]).IsChain fun a b => state.next .wait a = some b
  nodup : (tasks ++ [caller]).Nodup
  prev : ∀ task ∈ tasks, ∃ pred, state.prev .wait task = some pred
  head : ∃ head, state.waitListHead = some head ∧ head ∉ (tasks ++ [caller]).tail
  caller : state.status caller ≠ .wait

namespace SweepPath

variable {caller : Addr} {tasks : List Addr}

theorem of_links (hpath : SweepPath state caller tasks)
    (hlinks : state'.links .wait = state.links .wait)
    (hhead : state'.waitListHead = state.waitListHead) (hstatus : state'.status = state.status) :
    SweepPath state' caller tasks where
  forward := by
    rw [show state'.next .wait = state.next .wait from congrArg Links.next hlinks]
    exact hpath.forward
  nodup := hpath.nodup
  prev := by
    rw [show state'.prev .wait = state.prev .wait from congrArg Links.prev hlinks]
    exact hpath.prev
  head := by
    rw [hhead]
    exact hpath.head
  caller := by
    rw [hstatus]
    exact hpath.caller

theorem tail (hpath : SweepPath state caller (task :: tasks)) : SweepPath state caller tasks where
  forward := hpath.forward.tail
  nodup := (List.nodup_cons.mp hpath.nodup).2
  prev := fun other hother => hpath.prev other (List.mem_cons_of_mem task hother)
  head := by
    obtain ⟨head, hhead, hoff⟩ := hpath.head
    exact ⟨head, hhead, fun h => hoff (List.mem_of_mem_tail h)⟩
  caller := hpath.caller

/-- The next task on the way is neither the one before it nor the head of the list. -/
theorem exists_next (hpath : SweepPath state caller (task :: tasks)) :
    ∃ succ, (tasks ++ [caller]).head? = some succ ∧ state.next .wait task = some succ ∧
      succ ≠ task ∧ some succ ≠ state.waitListHead := by
  obtain ⟨succ, rest, hsplit⟩ := List.exists_cons_of_ne_nil (List.concat_ne_nil caller tasks)
  have hforward := hpath.forward
  have hnodup := hpath.nodup
  obtain ⟨head, hhead, hoff⟩ := hpath.head
  rw [List.cons_append, hsplit] at hforward hnodup hoff
  refine ⟨succ, by rw [hsplit]; rfl, (List.isChain_cons_cons.mp hforward).1, ?_, ?_⟩
  · rintro rfl
    simp at hnodup
  · rw [hhead]
    rintro h
    exact hoff (Option.some.inj h ▸ List.mem_cons_self)

end SweepPath

/-! ## The turns of the sweep -/

/-- The sweep does not get past a task that is not waiting. -/
theorem not_returns_sweep_of_not_wait (hstatus : state.status task ≠ .wait) :
    ¬ Returns (fun fuel => loop (sweepTurn cfg waitRes) fuel (some task, state)) state' := by
  have hturn : sweepTurn cfg waitRes (some task, state) = .done (.next (some task, state)) := by
    simp [sweepTurn, hstatus]
  have hspin : Diverges fun fuel => loop (sweepTurn cfg waitRes) fuel (some task, state) := by
    refine @diverges_loop _ _ _ _ (fun cursor => cursor = (some task, state)) ?_ _ rfl
    rintro _ rfl
    exact ⟨_, hturn, rfl⟩
  exact hspin.not_returns state'

section Path

variable {caller : Addr} {tasks : List Addr}

/-- A task that is not due loses a tick, and the sweep moves on. -/
theorem sweepTurn_of_not_due (hpath : SweepPath state caller (task :: tasks))
    (hstatus : state.status task = .wait) (hdue : ¬ Due cfg waitRes state task) :
    sweepTurn cfg waitRes (some task, state) =
      .done (.next ((tasks ++ [caller]).head?, tickWaiting cfg waitRes task state)) := by
  obtain ⟨succ, hfirst, hnext, -, hoff⟩ := hpath.exists_next
  have hticks : ((tickWaiting cfg waitRes task state).tcb task).waitRes.taskDelayTicks ≠ 0 :=
    fun h => hdue (delay_tickWaiting_eq_zero_iff.mp h)
  have hnext' : (tickWaiting cfg waitRes task state).next .wait task = some succ :=
    (congrFun (congrArg Links.next (links_tickWaiting .wait)) task).trans hnext
  simp [sweepTurn, hstatus, wakeIfDue, hticks, hnext', hoff, hfirst]

/-- The head of the list moves on when it is the first task on the way. -/
theorem SweepPath.resumedHead (hpath : SweepPath state caller (task :: tasks)) :
    ∃ head, Helios.resumedHead state task = some head ∧ head ≠ task := by
  obtain ⟨succ, -, hnext, hne, -⟩ := hpath.exists_next
  obtain ⟨head, hhead, -⟩ := hpath.head
  rw [Helios.resumedHead, hhead]
  by_cases hself : some task = some head
  · refine ⟨succ, ?_, hne⟩
    rw [if_pos hself, if_neg (by simp [hnext, hne]), hnext]
  · exact ⟨head, if_neg hself, fun h => hself (by rw [h])⟩

/-- A due task is resumed and keeps no link. -/
theorem SweepPath.resume_of_due (hpath : SweepPath state caller (task :: tasks))
    (hstatus : state.status task = .wait) :
    ∃ pred succ woken, state.prev .wait task = some pred ∧ state.next .wait task = some succ ∧
      heliosSchedSendToResume (some task) (tickWaiting cfg waitRes task state) = .done woken ∧
      woken.links .wait = (state.links .wait).detach task pred succ ∧
      woken.waitListHead ≠ none := by
  obtain ⟨pred, hpred⟩ := hpath.prev task List.mem_cons_self
  obtain ⟨succ, -, hnext, -⟩ := hpath.exists_next
  have hticked : SweepPath (tickWaiting cfg waitRes task state) caller (task :: tasks) :=
    hpath.of_links (links_tickWaiting .wait) waitListHead_tickWaiting
      status_tickWaiting
  obtain ⟨head, hhead, hne⟩ := hticked.resumedHead
  have hblocked : ((tickWaiting cfg waitRes task state).status task).Blocked := by
    rw [status_tickWaiting, hstatus]
    exact .inl rfl
  have hlinks := @links_tickWaiting cfg state waitRes task .wait
  have hrun := heliosSchedSendToResume_of_links hblocked
    ((congrFun (congrArg Links.prev hlinks) task).trans hpred)
    ((congrFun (congrArg Links.next hlinks) task).trans hnext)
    (by rw [hhead]; simpa using hne.symm)
  refine ⟨pred, succ, _, hpred, hnext, hrun, ?_, ?_⟩
  · simp
  · show Helios.resumedHead _ task ≠ none
    simp [hhead]

/-- The sweep ends with the first due task it meets. -/
theorem returns_sweep_of_due (hpath : SweepPath state caller (task :: tasks))
    (hstatus : state.status task = .wait) (hdue : Due cfg waitRes state task) :
    Returns (fun fuel => loop (sweepTurn cfg waitRes) fuel (some task, state)) state' ↔
      heliosSchedSendToResume (some task) (tickWaiting cfg waitRes task state) =
        .done state' := by
  obtain ⟨pred, succ, woken, hpred, hnext, hrun, hlinks, hhead⟩ :=
    @SweepPath.resume_of_due cfg _ waitRes _ _ _ hpath hstatus
  have hticks : ((tickWaiting cfg waitRes task state).tcb task).waitRes.taskDelayTicks = 0 :=
    delay_tickWaiting_eq_zero_iff.mpr hdue
  have hgone : woken.next .wait task = none := by
    rw [show woken.next .wait = (woken.links .wait).next from rfl, hlinks]
    simp [Links.detach]
  have hturn : sweepTurn cfg waitRes (some task, state) = .done (.next (none, woken)) := by
    simp [sweepTurn, hstatus, wakeIfDue, hticks, hrun, hgone, hhead.symm]
  have hlast : sweepTurn cfg waitRes (none, woken) = .done (.exit woken) := rfl
  rw [returns_loop_of_next hturn, returns_loop_of_exit hlast, hrun, Outcome.done.injEq]

end Path

/-! ## The whole sweep -/

/-- Every listed task counts down. -/
def tickAll (cfg : HeliosConfig) (waitRes : ℕ) (tasks : List Addr) (state : SchedState) :
    SchedState :=
  tasks.foldl (fun state task => tickWaiting cfg waitRes task state) state

section TickAll

variable {tasks : List Addr}

@[simp]
theorem frame_tickAll : (tickAll cfg waitRes tasks state).frame = state.frame := by
  induction tasks generalizing state with
  | nil => rfl
  | cons task tasks ih => exact ih.trans frame_tickWaiting

@[simp]
theorem status_tickAll : (tickAll cfg waitRes tasks state).status = state.status := by
  induction tasks generalizing state with
  | nil => rfl
  | cons task tasks ih => exact ih.trans status_tickWaiting

@[simp]
theorem links_tickAll (linkType : LinkType) :
    (tickAll cfg waitRes tasks state).links linkType = state.links linkType := by
  induction tasks generalizing state with
  | nil => rfl
  | cons task tasks ih => exact ih.trans (links_tickWaiting linkType)

@[simp]
theorem waitListHead_tickAll :
    (tickAll cfg waitRes tasks state).waitListHead = state.waitListHead := by
  induction tasks generalizing state with
  | nil => rfl
  | cons task tasks ih => exact ih.trans waitListHead_tickWaiting

end TickAll

/-- The first task of the list that is not a waiting task with ticks left is due and waiting;
`before` are those ahead of it. -/
structure FirstDue (cfg : HeliosConfig) (waitRes : ℕ) (state : SchedState)
    (tasks before : List Addr) (task : Addr) : Prop where
  split : ∃ after, tasks = before ++ task :: after
  before : ∀ other ∈ before, state.status other = .wait ∧ ¬ Due cfg waitRes state other
  status : state.status task = .wait
  due : Due cfg waitRes state task

theorem FirstDue.congr {res res' : ℕ} {tasks before : List Addr} {task : Addr}
    (hfirst : FirstDue cfg res state tasks before task)
    (hsame : ∀ other ∈ tasks, state'.status other = state.status other ∧
      (Due cfg res' state' other ↔ Due cfg res state other)) :
    FirstDue cfg res' state' tasks before task := by
  obtain ⟨after, rfl⟩ := hfirst.split
  refine ⟨⟨after, rfl⟩, fun other hother => ?_, ?_, ?_⟩
  · obtain ⟨hstatus, hdue⟩ := hsame other (List.mem_append_left _ hother)
    rw [hstatus, hdue]
    exact hfirst.before other hother
  · rw [(hsame task (by simp)).1]
    exact hfirst.status
  · exact (hsame task (by simp)).2.mpr hfirst.due

/-- The first task is the due one, or has ticks left and the due one is behind it. -/
theorem firstDue_cons_iff {tasks before : List Addr} {first : Addr} :
    FirstDue cfg waitRes state (first :: tasks) before task ↔
      (before = [] ∧ task = first ∧ state.status first = .wait ∧ Due cfg waitRes state first) ∨
        ∃ before', before = first :: before' ∧ state.status first = .wait ∧
          ¬ Due cfg waitRes state first ∧ FirstDue cfg waitRes state tasks before' task := by
  constructor
  · rintro ⟨⟨after, hsplit⟩, hbefore, hstatus, hdue⟩
    cases before with
    | nil =>
        obtain ⟨rfl, -⟩ := List.cons.inj hsplit
        exact .inl ⟨rfl, rfl, hstatus, hdue⟩
    | cons head before =>
        obtain ⟨rfl, htail⟩ := List.cons.inj hsplit
        obtain ⟨hwait, hleft⟩ := hbefore first List.mem_cons_self
        exact .inr ⟨before, rfl, hwait, hleft, ⟨after, htail⟩,
          fun other hother => hbefore other (List.mem_cons_of_mem first hother), hstatus, hdue⟩
  · rintro (⟨rfl, rfl, hstatus, hdue⟩ | ⟨before', rfl, hwait, hleft, hrest⟩)
    · exact ⟨⟨tasks, rfl⟩, by simp, hstatus, hdue⟩
    · obtain ⟨after, hsplit⟩ := hrest.split
      refine ⟨⟨after, by rw [hsplit]; rfl⟩, fun other hother => ?_, hrest.status, hrest.due⟩
      rcases List.mem_cons.mp hother with rfl | hother
      · exact ⟨hwait, hleft⟩
      · exact hrest.before other hother

/-- The tick of a task with ticks left changes nothing for the others. -/
theorem due_tickWaiting_iff {first other : Addr} (hne : other ≠ first)
    (hdue : ¬ Due cfg waitRes state first) :
    Due cfg waitRes (tickWaiting cfg waitRes first state) other ↔
      Due cfg waitRes state other := by
  rw [tickWaiting_of_not_due hdue, Due, Due, SchedState.delay_setDelay,
    Function.update_of_ne hne]
  rfl

theorem firstDue_tickWaiting_iff {tasks before : List Addr} {first : Addr}
    (hfirst : first ∉ tasks) (hdue : ¬ Due cfg waitRes state first) :
    FirstDue cfg waitRes (tickWaiting cfg waitRes first state) tasks before task ↔
      FirstDue cfg waitRes state tasks before task := by
  have hsame : ∀ other ∈ tasks,
      (tickWaiting cfg waitRes first state).status other = state.status other ∧
        (Due cfg waitRes (tickWaiting cfg waitRes first state) other ↔
          Due cfg waitRes state other) := by
    intro other hother
    have hne : other ≠ first := fun h => hfirst (h ▸ hother)
    exact ⟨by rw [status_tickWaiting], due_tickWaiting_iff hne hdue⟩
  constructor
  · intro h
    exact h.congr fun other hother => ⟨(hsame other hother).1.symm, (hsame other hother).2.symm⟩
  · intro h
    exact h.congr hsame

/-- On the way to the caller the sweep returns exactly when it meets a due task, and it
returns what resuming that task leaves. -/
theorem returns_sweepLoop_iff {caller : Addr} {tasks : List Addr}
    (hpath : SweepPath state caller tasks) :
    Returns (fun fuel => loop (sweepTurn cfg waitRes) fuel ((tasks ++ [caller]).head?, state))
        state' ↔
      ∃ before task, FirstDue cfg waitRes state tasks before task ∧
        heliosSchedSendToResume (some task)
          (tickWaiting cfg waitRes task (tickAll cfg waitRes before state)) = .done state' := by
  induction tasks generalizing state with
  | nil =>
      refine iff_of_false (not_returns_sweep_of_not_wait hpath.caller) ?_
      rintro ⟨before, task, ⟨⟨after, hsplit⟩, -⟩, -⟩
      simp at hsplit
  | cons first tasks ih =>
      by_cases hstatus : state.status first = .wait
      swap
      · refine iff_of_false (not_returns_sweep_of_not_wait hstatus) ?_
        rintro ⟨before, task, hfirst, -⟩
        rcases firstDue_cons_iff.mp hfirst with ⟨-, -, hwait, -⟩ | ⟨before', -, hwait, -⟩
        · exact hstatus hwait
        · exact hstatus hwait
      by_cases hdue : Due cfg waitRes state first
      · refine (returns_sweep_of_due hpath hstatus hdue).trans ⟨fun hrun => ?_, ?_⟩
        · exact ⟨[], first, firstDue_cons_iff.mpr (.inl ⟨rfl, rfl, hstatus, hdue⟩), hrun⟩
        · rintro ⟨before, task, hfirst, hrun⟩
          rcases firstDue_cons_iff.mp hfirst with ⟨rfl, rfl, -⟩ | ⟨before', -, -, hleft, -⟩
          · exact hrun
          · exact absurd hdue hleft
      · have hnodup : first ∉ tasks := fun h =>
          (List.nodup_cons.mp hpath.nodup).1 (List.mem_append_left _ h)
        have hpath' : SweepPath (tickWaiting cfg waitRes first state) caller tasks :=
          hpath.tail.of_links (links_tickWaiting .wait) waitListHead_tickWaiting status_tickWaiting
        rw [List.cons_append, List.head?_cons,
          returns_loop_of_next (sweepTurn_of_not_due hpath hstatus hdue), ih hpath']
        constructor
        · rintro ⟨before, task, hfirst, hrun⟩
          have hrest := (firstDue_tickWaiting_iff hnodup hdue).mp hfirst
          exact ⟨first :: before, task,
            firstDue_cons_iff.mpr (.inr ⟨before, rfl, hstatus, hdue, hrest⟩), hrun⟩
        · rintro ⟨before, task, hfirst, hrun⟩
          rcases firstDue_cons_iff.mp hfirst with ⟨-, -, -, hdue'⟩ | ⟨before', rfl, -, -, hrest⟩
          · exact absurd hdue' hdue
          · exact ⟨before', task, (firstDue_tickWaiting_iff hnodup hdue).mpr hrest, hrun⟩

theorem SweepPath.drop {caller : Addr} {before tasks : List Addr}
    (hpath : SweepPath state caller (before ++ tasks)) : SweepPath state caller tasks := by
  induction before with
  | nil => exact hpath
  | cons first before ih => exact ih hpath.tail

/-- What is left once the first due task has been resumed. -/
theorem SweepPath.exists_woken {caller : Addr} {tasks before : List Addr}
    (hpath : SweepPath state caller tasks) (hfirst : FirstDue cfg waitRes state tasks before task) :
    ∃ pred succ woken, state.prev .wait task = some pred ∧ state.next .wait task = some succ ∧
      heliosSchedSendToResume (some task)
        (tickWaiting cfg waitRes task (tickAll cfg waitRes before state)) = .done woken ∧
      woken.links .wait = (state.links .wait).detach task pred succ ∧
      woken.frame = state.frame ∧
      woken.status = Function.update state.status task .ready := by
  obtain ⟨after, rfl⟩ := hfirst.split
  have hpath' : SweepPath (tickAll cfg waitRes before state) caller (task :: after) :=
    hpath.drop.of_links (links_tickAll .wait) waitListHead_tickAll status_tickAll
  have hlinks := @links_tickAll cfg state waitRes before .wait
  obtain ⟨pred, succ, woken, hpred, hsucc, hrun, hdetached, -⟩ :=
    @SweepPath.resume_of_due cfg _ waitRes _ _ _ hpath' (by simpa using hfirst.status)
  obtain ⟨hframe, hstatus⟩ := frame_of_sendToResume hrun
  refine ⟨pred, succ, woken, ?_, ?_, hrun, hlinks ▸ hdetached, by simpa using hframe, ?_⟩
  · exact (congrFun (congrArg Links.prev hlinks) task).symm.trans hpred
  · exact (congrFun (congrArg Links.next hlinks) task).symm.trans hsucc
  · simpa [hfirst.status, TaskStatus.resumed, TaskStatus.Blocked] using hstatus

/-- The resource that a sweep looks at. -/
def SchedState.headResource (state : SchedState) : ℕ :=
  match state.waitListHead with
  | some head => state.awaited head
  | none => 0

/-- On a list that leads to the caller the sweep returns exactly when it meets a due task. -/
theorem returns_waitListAdjustment_iff {caller : Addr} {tasks : List Addr}
    (hpath : SweepPath state caller tasks)
    (hhead : state.waitListHead = (tasks ++ [caller]).head?) :
    Returns (fun fuel => heliosSchedWaitListAdjustment cfg fuel state) state' ↔
      ∃ before task, FirstDue cfg state.headResource state tasks before task ∧
        heliosSchedSendToResume (some task)
          (tickWaiting cfg state.headResource task (tickAll cfg state.headResource before state)) =
            .done state' := by
  obtain ⟨head, hsome, -⟩ := hpath.head
  rw [← returns_sweepLoop_iff hpath, ← hhead, SchedState.headResource, hsome]
  simp only [heliosSchedWaitListAdjustment, hsome]
  rfl

end Cyancore.Helios
