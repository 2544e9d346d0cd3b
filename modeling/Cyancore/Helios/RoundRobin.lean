/-
# The task that the round robin picks

Round robin means to run the next ready task of the list.  The source looks at the task
after the current one only, having woken it if it is the idle task; if that one is ready,
the task *behind* it is marked as running, and if it is not, none is.  So the task to run
is picked when there is one task only, and otherwise when the idle task is skipped: it was
blocked, and what comes behind it is ready.  Nothing has to be picked when no task is ready
and the idle task is running.
-/

import Cyancore.Helios.Rotation

namespace Cyancore.Helios

open Cyancore.Math

variable {state : SchedState} {ready waiting : List Addr} {curr ptr succ head : Addr}

/-! ## The task to run next -/

/-- The tasks of the list in the order in which a walk from the task after `curr` meets them;
`curr` itself comes last. -/
def tasksAfter (curr : Addr) (ready : List Addr) : List Addr :=
  (ready.dropWhile (· ≠ curr)).tail ++ ready.takeWhile (· ≠ curr) ++ [curr]

/-- The task to run next: the first ready one of the walk, or else the head of the list. -/
def nextToRun (state : SchedState) (curr : Addr) (ready : List Addr) : Option Addr :=
  ((tasksAfter curr ready).find? fun task => state.status task = .ready).or ready.head?

/-- The call returns and has marked the task to run next, and no other, as running. -/
def RunsNext (ready : List Addr) (curr : Addr) (state : SchedState) : Prop :=
  ∃ state' task, heliosSchedAlgoRoundRobinFn state = .done state' ∧
    nextToRun state curr ready = some task ∧
    ∀ other, state'.status other = .running ↔ other = task ∨ state.status other = .running

/-- There is one task, and it has not ended; or the head follows the current task and is
blocked, and behind it is a ready task; or no task is ready and the head is running. -/
def RoundRobinFinds (state : SchedState) (curr : Addr) (ready : List Addr) : Prop :=
  (ready = [curr] ∧ state.status curr ≠ .exit) ∨
    (∃ head ∈ ready.head?, state.next .ready curr = some head ∧ (state.status head).Blocked ∧
      ∃ succ ∈ state.next .ready head, state.status succ = .ready) ∨
    ((∀ task ∈ ready, state.status task ≠ .ready) ∧
      ∃ head ∈ ready.head?, state.status head = .running)

/-- A walk once round the list, from the task after `curr`. -/
structure WalkFrom (state : SchedState) (ready : List Addr) (curr ptr : Addr)
    (rest : List Addr) : Prop where
  head : state.readyListHead = ready.head?
  tasks : tasksAfter curr ready = ptr :: rest
  perm : (ptr :: rest).Perm ready
  nodup : (ptr :: rest).Nodup
  next : state.next .ready curr = some ptr
  succ : state.next .ready ptr = some (rest.head?.getD ptr)

theorem exists_walkFrom (hlist : state.ListIs .ready ready) (hcurr : curr ∈ ready) :
    ∃ ptr rest, WalkFrom state ready curr ptr rest := by
  obtain ⟨before, behind, rfl, hbefore⟩ := List.eq_append_cons_of_mem hcurr
  obtain ⟨htake, hdrop⟩ := @takeWhile_ne_of_notMem curr before behind hbefore
  have hwalk : tasksAfter curr (before ++ curr :: behind) = behind ++ (before ++ [curr]) := by
    rw [tasksAfter, htake, hdrop, List.tail_cons, List.append_assoc]
  have hring : (state.links .ready).Ring (behind ++ (before ++ [curr])) :=
    Links.Ring.rotate (before ++ [curr]) behind (by simpa using hlist.ring)
  have hperm : (behind ++ (before ++ [curr])).Perm (before ++ curr :: behind) := by
    simpa using (List.perm_append_comm : (behind ++ (before ++ [curr])).Perm _)
  obtain ⟨ptr, rest, hsplit⟩ : ∃ ptr rest, behind ++ (before ++ [curr]) = ptr :: rest :=
    List.exists_cons_of_ne_nil (by simp)
  have hfirst : (behind ++ before ++ [curr]).head? = some ptr := by
    rw [List.append_assoc, hsplit, List.head?_cons]
  have hnext := (Links.Ring.joined_last (by simpa using hring) hfirst).1
  rw [hsplit] at hwalk hperm hring
  refine ⟨ptr, rest, hlist.head, hwalk, hperm, hring.nodup, hnext, ?_⟩
  cases rest with
  | nil => exact (@Links.Ring.joined_last _ _ [] ptr ptr hring rfl).1
  | cons succ rest => exact (Links.Ring.joined_of_split [] rest hring).1

/-! ## What the call does -/

/-- The status of the task after the current one when the call looks at it. -/
def wokenStatus (state : SchedState) (ptr : Addr) : TaskStatus :=
  if some ptr = state.readyListHead then (state.status ptr).resumed else state.status ptr

theorem wokenStatus_eq_running_iff :
    wokenStatus state ptr = .running ↔ state.status ptr = .running := by
  rw [wokenStatus]
  split
  · cases state.status ptr <;> decide
  · rfl

/-- A task is ready when it is looked at if it was, or is the head and was blocked. -/
theorem wokenStatus_eq_ready (hready : wokenStatus state ptr = .ready) :
    state.status ptr = .ready ∨ (some ptr = state.readyListHead ∧ (state.status ptr).Blocked) := by
  rw [wokenStatus] at hready
  split at hready
  · next hhead =>
      revert hready
      cases state.status ptr <;> simp [TaskStatus.resumed, TaskStatus.Blocked, hhead]
  · exact .inl hready

/-- Waking the idle task changes no status but its own. -/
theorem exists_resumeIdle (hwait : state.ListIs .wait waiting)
    (hmem : ptr ∈ waiting ↔ (state.status ptr).Blocked) :
    ∃ woken, resumeIdle (some ptr) state = .done woken ∧ woken.frame = state.frame ∧
      woken.status = Function.update state.status ptr (wokenStatus state ptr) := by
  by_cases hhead : some ptr = state.readyListHead
  · obtain ⟨woken, hrun, -, hframe, hstatus⟩ := heliosSchedSendToResume_of_mem_iff hwait hmem
    refine ⟨woken, by rw [resumeIdle, if_pos hhead, hrun], hframe, ?_⟩
    rw [hstatus, wokenStatus, if_pos hhead]
  · refine ⟨state, by rw [resumeIdle, if_neg hhead]; rfl, rfl, ?_⟩
    rw [wokenStatus, if_neg hhead, Function.update_eq_self]

/-- The task behind `ptr` is marked if `ptr` is ready once it is awake. -/
theorem exists_roundRobin (hwait : state.ListIs .wait waiting)
    (hmem : ptr ∈ waiting ↔ (state.status ptr).Blocked) (hcurr : state.currTask = some curr)
    (hptr : state.next .ready curr = some ptr) (hsucc : state.next .ready ptr = some succ) :
    ∃ state', heliosSchedAlgoRoundRobinFn state = .done state' ∧
      ∀ other, state'.status other = .running ↔
        (wokenStatus state ptr = .ready ∧ other = succ) ∨ state.status other = .running := by
  obtain ⟨woken, hrun, hframe, hstatus⟩ := exists_resumeIdle hwait hmem
  have hsame : ∀ other, woken.status other = .running ↔ state.status other = .running := by
    intro other
    rw [hstatus, Function.update_apply]
    split
    · next heq => rw [heq, wokenStatus_eq_running_iff]
    · rfl
  have hbehind : woken.next .ready ptr = some succ := by
    rw [SchedState.next_ready_of_frame hframe, hsucc]
  have hlook : woken.status ptr = wokenStatus state ptr := by
    rw [hstatus, Function.update_self]
  by_cases hready : wokenStatus state ptr = .ready
  · refine ⟨woken.setStatus succ .running, ?_, fun other => ?_⟩
    · simp [heliosSchedAlgoRoundRobinFn, hcurr, hptr, hrun, hlook, hready, hbehind,
        heliosSchedContextSwitch]
    · rw [SchedState.status_setStatus, Function.update_apply]
      by_cases heq : other = succ
      · simp [heq, hready]
      · simp [heq, hsame]
  · refine ⟨woken, ?_, fun other => ?_⟩
    · simp [heliosSchedAlgoRoundRobinFn, hcurr, hptr, hrun, hlook, hready]
    · simp [hready, hsame]

/-! ## When the task behind is the one to run -/

section Finding

variable {rest : List Addr}

/-- A ready task after the current one is the one to run. -/
theorem nextToRun_of_ready (hwalk : tasksAfter curr ready = ptr :: rest)
    (hready : state.status ptr = .ready) : nextToRun state curr ready = some ptr := by
  simp [nextToRun, hwalk, hready]

/-- Otherwise the rest of the walk decides. -/
theorem nextToRun_of_not_ready (hwalk : tasksAfter curr ready = ptr :: rest)
    (hready : state.status ptr ≠ .ready) :
    nextToRun state curr ready =
      (rest.find? fun task => state.status task = .ready).or ready.head? := by
  simp [nextToRun, hwalk, hready]

theorem status_of_find? {nodes : List Addr} {task : Addr}
    (hfind : (nodes.find? fun task => state.status task = .ready) = some task) :
    state.status task = .ready := by
  simpa using List.find?_some hfind

/-- Only the head is picked without being ready, and only if no task is. -/
theorem nextToRun_cases (hperm : (tasksAfter curr ready).Perm ready) {task : Addr}
    (hnext : nextToRun state curr ready = some task) :
    state.status task = .ready ∨
      ((∀ other ∈ ready, state.status other ≠ .ready) ∧ ready.head? = some task) := by
  rw [nextToRun] at hnext
  cases hfind : (tasksAfter curr ready).find? fun task => state.status task = .ready with
  | some found =>
      rw [hfind, Option.some_or, Option.some.injEq] at hnext
      exact .inl (hnext ▸ status_of_find? hfind)
  | none =>
      rw [hfind, Option.none_or] at hnext
      refine .inr ⟨fun other hother => ?_, hnext⟩
      simpa using List.find?_eq_none.mp hfind other (hperm.mem_iff.mpr hother)

theorem nextToRun_of_none (hperm : (tasksAfter curr ready).Perm ready)
    (hnone : ∀ task ∈ ready, state.status task ≠ .ready) :
    nextToRun state curr ready = ready.head? := by
  have hfind : ((tasksAfter curr ready).find? fun task => state.status task = .ready) = none := by
    rw [List.find?_eq_none]
    intro task htask
    simpa using hnone task (hperm.mem_iff.mp htask)
  rw [nextToRun, hfind, Option.none_or]

end Finding

/-! ## When the call runs it -/

namespace WalkFrom

variable {rest : List Addr} (hwalk : WalkFrom state ready curr ptr rest)

include hwalk

theorem ptr_mem : ptr ∈ ready := hwalk.perm.mem_iff.mp List.mem_cons_self

/-- A walk of one task comes to the current one. -/
theorem eq_curr (hrest : rest = []) : ptr = curr := by
  have hlast : (tasksAfter curr ready).getLast? = some curr := by simp [tasksAfter]
  rw [hwalk.tasks, hrest, List.getLast?_singleton] at hlast
  exact Option.some.inj hlast

/-- There is one task only if the walk meets no other. -/
theorem eq_singleton_iff : ready = [curr] ↔ rest = [] := by
  have hlength := hwalk.perm.length_eq
  constructor
  · rintro rfl
    simpa using hlength
  · intro hrest
    rw [← hwalk.eq_curr hrest]
    subst hrest
    exact (List.singleton_perm.mp hwalk.perm).symm

theorem eq_of_next {task : Addr} (hnext : state.next .ready curr = some task) : task = ptr :=
  Option.some.inj (hnext.symm.trans hwalk.next)

theorem succ_eq_iff : rest.head?.getD ptr = ptr ↔ rest = [] := by
  cases rest with
  | nil => simp
  | cons succ rest =>
      have hne : succ ≠ ptr := fun h => (List.nodup_cons.mp hwalk.nodup).1 (by simp [h])
      simp [hne]

/-- A first task that is ready is passed over, unless it is the only one. -/
theorem finds_iff_of_ready (hready : state.status ptr = .ready) :
    RoundRobinFinds state curr ready ↔
      nextToRun state curr ready = some (rest.head?.getD ptr) := by
  rw [nextToRun_of_ready hwalk.tasks hready]
  constructor
  · rintro (⟨hone, -⟩ | ⟨head, -, hnext, hblocked, -⟩ | ⟨hnone, -⟩)
    · rw [hwalk.eq_singleton_iff.mp hone]
      rfl
    · rw [hwalk.eq_of_next hnext, hready] at hblocked
      exact absurd hblocked (by decide)
    · exact absurd hready (hnone ptr hwalk.ptr_mem)
  · intro hsame
    have hone := hwalk.succ_eq_iff.mp (Option.some.inj hsame).symm
    refine .inl ⟨hwalk.eq_singleton_iff.mpr hone, ?_⟩
    rw [← hwalk.eq_curr hone, hready]
    decide

/-- A blocked head that comes first is woken and passed over, and the task behind it is run. -/
theorem finds_iff_of_blocked (hhead : ready.head? = some ptr)
    (hblocked : (state.status ptr).Blocked) :
    RoundRobinFinds state curr ready ↔
      nextToRun state curr ready = some (rest.head?.getD ptr) := by
  have hready : state.status ptr ≠ .ready := by
    intro heq
    rw [heq] at hblocked
    exact absurd hblocked (by decide)
  rw [nextToRun_of_not_ready hwalk.tasks hready, hhead]
  cases rest with
  | nil =>
      refine iff_of_true (.inl ⟨hwalk.eq_singleton_iff.mpr rfl, fun heq => ?_⟩) rfl
      rw [hwalk.eq_curr rfl, heq] at hblocked
      exact absurd hblocked (by decide)
  | cons succ rest =>
      by_cases hsucc : state.status succ = .ready
      · exact iff_of_true
          (.inr (.inl ⟨ptr, hhead, hwalk.next, hblocked, succ, hwalk.succ, hsucc⟩))
          (by simp [hsucc])
      · refine iff_of_false ?_ fun hfind => ?_
        · rintro (⟨hone, -⟩ | ⟨head, -, hnext, -, other, hother, hfound⟩ | ⟨-, head, hfirst, hrun⟩)
          · cases hwalk.eq_singleton_iff.mp hone
          · rw [hwalk.eq_of_next hnext, hwalk.succ] at hother
            have heq : succ = other := Option.some.inj hother
            exact hsucc (heq ▸ hfound)
          · rw [← Option.some.inj (hhead.symm.trans hfirst)] at hrun
            rw [hrun] at hblocked
            exact absurd hblocked (by decide)
        · cases hrest : (succ :: rest).find? fun task => state.status task = .ready with
          | some found =>
              rw [hrest, Option.some_or, List.head?_cons, Option.getD_some] at hfind
              exact hsucc (Option.some.inj hfind ▸ status_of_find? hrest)
          | none =>
              rw [hrest, Option.none_or, List.head?_cons, Option.getD_some] at hfind
              exact (List.nodup_cons.mp hwalk.nodup).1 (by simp [Option.some.inj hfind])

/-- Where nothing is marked, the task to run is one that is running. -/
theorem finds_iff_of_not_woken (hready : wokenStatus state ptr ≠ .ready) :
    RoundRobinFinds state curr ready ↔
      (∀ task ∈ ready, state.status task ≠ .ready) ∧
        ∃ head ∈ ready.head?, state.status head = .running := by
  constructor
  · rintro (⟨hone, hexit⟩ | ⟨head, hfirst, hnext, hblocked, -⟩ | h)
    · have hrest := hwalk.eq_singleton_iff.mp hone
      have hhead : some curr = state.readyListHead := by rw [hwalk.head, hone, List.head?_cons]
      rw [hwalk.eq_curr hrest, wokenStatus, if_pos hhead] at hready
      have hrun : state.status curr = .running := by
        revert hexit hready
        cases state.status curr <;> decide
      simp [hone, hrun]
    · obtain rfl := hwalk.eq_of_next hnext
      rw [wokenStatus, if_pos (hwalk.head.trans hfirst).symm, TaskStatus.resumed,
        if_pos hblocked] at hready
      exact absurd rfl hready
    · exact h
  · exact fun h => .inr (.inr h)

end WalkFrom

section Marks

variable {rest : List Addr} {state' : SchedState} (hperm : (tasksAfter curr ready).Perm ready)
  (hrun : heliosSchedAlgoRoundRobinFn state = .done state')

include hperm hrun

/-- Of a call that marks a task: it has to be the one to run. -/
theorem runsNext_iff_of_woken (hwalk : WalkFrom state ready curr ptr rest)
    (hwoken : wokenStatus state ptr = .ready)
    (hmarks : ∀ other, state'.status other = .running ↔
      (wokenStatus state ptr = .ready ∧ other = succ) ∨ state.status other = .running) :
    RunsNext ready curr state ↔ nextToRun state curr ready = some succ := by
  constructor
  · rintro ⟨state'', task, hrun', hnext, hmarks'⟩
    obtain rfl : state' = state'' := Outcome.done.inj (hrun.symm.trans hrun')
    have hmarked : task = succ ∨ state.status task = .running := by
      simpa [hwoken] using (hmarks task).mp ((hmarks' task).mpr (.inl rfl))
    rcases hmarked with rfl | hrunning
    · exact hnext
    exfalso
    rcases nextToRun_cases hperm hnext with hready | ⟨hnone, hhead⟩
    · simp [hready] at hrunning
    rcases wokenStatus_eq_ready hwoken with hready | ⟨hfirst, hblocked⟩
    · exact hnone ptr hwalk.ptr_mem hready
    · obtain rfl : ptr = task := Option.some.inj (hfirst.trans (hwalk.head.trans hhead))
      rw [hrunning] at hblocked
      exact absurd hblocked (by decide)
  · intro hnext
    exact ⟨state', succ, hrun, hnext, fun other => by simp [hmarks, hwoken]⟩

/-- Of a call that marks none: the one to run has to be running. -/
theorem runsNext_iff_of_not_woken (hwoken : wokenStatus state ptr ≠ .ready)
    (hmarks : ∀ other, state'.status other = .running ↔
      (wokenStatus state ptr = .ready ∧ other = succ) ∨ state.status other = .running) :
    RunsNext ready curr state ↔
      (∀ task ∈ ready, state.status task ≠ .ready) ∧
        ∃ head ∈ ready.head?, state.status head = .running := by
  constructor
  · rintro ⟨state'', task, hrun', hnext, hmarks'⟩
    obtain rfl : state' = state'' := Outcome.done.inj (hrun.symm.trans hrun')
    have hrunning : state.status task = .running := by
      simpa [hwoken] using (hmarks task).mp ((hmarks' task).mpr (.inl rfl))
    rcases nextToRun_cases hperm hnext with hready | ⟨hnone, hhead⟩
    · simp [hready] at hrunning
    · exact ⟨hnone, task, hhead, hrunning⟩
  · rintro ⟨hnone, head, hhead, hrunning⟩
    refine ⟨state', head, hrun, (nextToRun_of_none hperm hnone).trans hhead, fun other => ?_⟩
    have hsame : other = head → state.status other = .running := fun heq => heq ▸ hrunning
    simpa [hmarks, hwoken] using hsame

end Marks

/-- On lists in good order the round robin runs the next ready task exactly if there is one task
that has not ended, or a blocked head is skipped for a ready task behind it, or the idle task is
running and no task is ready. -/
theorem runsNext_iff (hready : state.ListIs .ready ready) (hwait : state.ListIs .wait waiting)
    (hblocked : ∀ task ∈ ready, task ∈ waiting ↔ (state.status task).Blocked)
    (hcurr : state.currTask = some curr) (hmem : curr ∈ ready) :
    RunsNext ready curr state ↔ RoundRobinFinds state curr ready := by
  obtain ⟨ptr, rest, hwalk⟩ := exists_walkFrom hready hmem
  obtain ⟨state', hrun, hmarks⟩ :=
    exists_roundRobin hwait (hblocked ptr hwalk.ptr_mem) hcurr hwalk.next hwalk.succ
  have hperm : (tasksAfter curr ready).Perm ready := by
    rw [hwalk.tasks]
    exact hwalk.perm
  by_cases hwoken : wokenStatus state ptr = .ready
  · rw [runsNext_iff_of_woken hperm hrun hwalk hwoken hmarks]
    rcases wokenStatus_eq_ready hwoken with hfirst | ⟨hhead, hidle⟩
    · exact (hwalk.finds_iff_of_ready hfirst).symm
    · exact (hwalk.finds_iff_of_blocked (hwalk.head.symm.trans hhead.symm) hidle).symm
  · rw [hwalk.finds_iff_of_not_woken hwoken]
    exact runsNext_iff_of_not_woken hperm hrun hwoken hmarks

/-! ## Two tasks -/

/-- Two tasks, of which the first sleeps, and the second is ready and current. -/
def sleepingIdle : SchedState :=
  { (readyPair.putList .wait ((readyPair.links .wait).alone 1) (some 1)).setStatus 1 .pause with
    currTask := some 2 }

/-- The idle task is woken, and the current task is run again. -/
theorem runsNext_sleepingIdle : RunsNext [1, 2] 2 sleepingIdle := by
  have hready : sleepingIdle.ListIs .ready [1, 2] :=
    ⟨⟨by decide, .cons_cons ⟨rfl, rfl⟩ (.cons_cons ⟨rfl, rfl⟩ (.singleton 1))⟩, rfl⟩
  have hwait : sleepingIdle.ListIs .wait [1] :=
    ⟨⟨by decide, .cons_cons ⟨rfl, rfl⟩ (.singleton 1)⟩, rfl⟩
  apply (runsNext_iff hready hwait (by decide) rfl (by decide)).mpr
  exact .inr (.inl ⟨1, rfl, rfl, by decide, 2, rfl, by decide⟩)

/-- Two ready tasks: the second is to run, and the first is marked. -/
theorem not_runsNext_readyPair :
    readyPair.ListIs .ready [1, 2] ∧ readyPair.ListIs .wait [] ∧
      (∀ task ∈ [1, 2], task ∈ ([] : List Addr) ↔ (readyPair.status task).Blocked) ∧
      readyPair.currTask = some 1 ∧ ¬ RunsNext [1, 2] 1 readyPair := by
  have hwait : readyPair.ListIs .wait [] := ⟨Links.ring_nil, rfl⟩
  refine ⟨readyPair_listIs, hwait, by decide, rfl, ?_⟩
  rintro ⟨state', task, hrun, hnext, hmarks⟩
  obtain ⟨state'', hrun', hmarks'⟩ :=
    @exists_roundRobin readyPair [] 1 2 1 hwait (by decide) rfl rfl rfl
  obtain rfl : state' = state'' := Outcome.done.inj (hrun.symm.trans hrun')
  obtain rfl : 2 = task := Option.some.inj hnext
  exact absurd ((hmarks' 2).mp ((hmarks 2).mpr (.inl rfl))) (by decide)

end Cyancore.Helios
