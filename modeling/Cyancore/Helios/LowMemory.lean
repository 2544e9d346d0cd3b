/-
# Task creation without memory

`helios_add_task` asks `helios_malloc` for a control block and then for a stack, both
between pausing all tasks and resuming them.  When the control block is refused it resumes
the tasks and gives up; when the stack is refused it does the same, and the control block it
was given stays allocated.
-/

import Cyancore.Helios.Bracket

namespace Cyancore.Helios

open Cyancore.Math

variable {cfg : HeliosConfig} {state state' : SchedState} {tasks waiting : List Addr}

/-- The scheduler before `helios_run`: no task is current, both lists are in good order, and
no task on the wait list is ready. -/
structure BeforeRun (state : SchedState) (tasks waiting : List Addr) : Prop where
  ready : state.ListIs .ready tasks
  wait : state.ListIs .wait waiting
  waits : ∀ task ∈ waiting, task ∈ tasks ∧ state.status task ≠ .ready
  curr : state.currTask = none

/-- The lists, the statuses, the id generator and the set of allocated blocks are as they were. -/
structure Untouched (state state' : SchedState) (tasks waiting : List Addr) : Prop where
  ready : state'.ListIs .ready tasks
  wait : state'.ListIs .wait waiting
  status : ∀ task, state'.status task = state.status task
  taskIdGen : state'.taskIdGen = state.taskIdGen
  heapBlocks : ∀ block, block ∈ state'.heapBlocks ↔ block ∈ state.heapBlocks

/-! ## What the sweeps leave alone -/

/-- A turn of `helios_resume_all_task` leaves the frame. -/
theorem frame_of_resumeAllTurn {ptr : Option Addr}
    {turn : Turn (Option Addr × SchedState) SchedState}
    (hturn : resumeAllTurn (ptr, state) = .done turn) :
    (∀ ptr' resumed, turn = .next (ptr', resumed) → resumed.frame = state.frame) ∧
      ∀ resumed, turn = .exit resumed → resumed.frame = state.frame := by
  obtain ⟨task, -, hturn⟩ := Outcome.bind_eq_done_iff.mp hturn
  obtain ⟨resumed, hrun, hturn⟩ := Outcome.bind_eq_done_iff.mp hturn
  have hframe : resumed.frame = state.frame := by
    cases hnext : state.next .ready task with
    | none => simp [hnext, heliosSchedSendToResume, deref] at hrun
    | some succ => exact (frame_of_sendToResume (hnext ▸ hrun)).1
  split at hturn
  · cases hturn
    constructor
    · intro ptr' after h
      cases h
    · intro after h
      cases h
      exact hframe
  · cases hturn
    constructor
    · intro ptr' after h
      cases h
      exact hframe
    · intro after h
      cases h

/-- Whatever the lists look like, `helios_resume_all_task` leaves the frame. -/
theorem frame_of_resumeAll {result : Status}
    (hrun : Returns (fun fuel => heliosResumeAllTask fuel state) (result, state')) :
    state'.frame = state.frame := by
  obtain ⟨fuel, hrun⟩ := hrun
  unfold heliosResumeAllTask at hrun
  split at hrun
  · cases hrun
    rfl
  · obtain ⟨resumed, hloop, hresult⟩ := Outcome.bind_eq_done_iff.mp hrun
    obtain ⟨-, rfl⟩ := Prod.mk.inj (Outcome.done.inj hresult)
    refine @loop_invariant _ _ _ resumeAllTurn (fun cursor => cursor.2.frame = state.frame)
      (fun resumed => resumed.frame = state.frame) ?_ ?_ _ rfl _ _ hloop
    · intro cursor cursor' hcursor hturn
      exact ((frame_of_resumeAllTurn hturn).1 _ _ rfl).trans hcursor
    · intro cursor resumed hcursor hturn
      exact ((frame_of_resumeAllTurn hturn).2 _ rfl).trans hcursor

/-! ## The two ways out -/

section Call

variable {handle handle' : ℕ} {args : TaskArgs} {memory : TaskMemory}

/-- A call that finds memory low has paused all tasks and then resumed them, with the control
block in between if it was given one. -/
theorem lowMemory_cases
    (hrun : Returns (fun fuel => heliosAddTask cfg fuel handle args memory state)
      (.errorMemoryLow, handle', state')) :
    ∃ fuel first paused result, heliosPauseAllTask cfg fuel state = .done (first, paused) ∧
      ((memory.block = none ∧ heliosResumeAllTask fuel paused = .done (result, state')) ∨
        ∃ block begun, memory.block = some block ∧ begun.heapBlocks = block :: paused.heapBlocks ∧
          heliosResumeAllTask fuel begun = .done (result, state')) := by
  obtain ⟨fuel, hrun⟩ := hrun
  unfold heliosAddTask at hrun
  split at hrun
  · obtain ⟨⟨first, paused⟩, hpause, hrun⟩ := Outcome.bind_eq_done_iff.mp hrun
    cases hblock : memory.block with
    | none =>
        simp only [hblock] at hrun
        obtain ⟨⟨result, resumed⟩, hresume, hrun⟩ := Outcome.bind_eq_done_iff.mp hrun
        cases hrun
        exact ⟨fuel, first, paused, result, hpause, .inl ⟨rfl, hresume⟩⟩
    | some block =>
        simp only [hblock] at hrun
        split at hrun
        · obtain ⟨⟨result, resumed⟩, hresume, hrun⟩ := Outcome.bind_eq_done_iff.mp hrun
          cases hrun
          exact ⟨fuel, first, paused, result, hpause, .inr ⟨block, _, rfl, rfl, hresume⟩⟩
        · obtain ⟨⟨second, placed⟩, hplace, hrun⟩ := Outcome.bind_eq_done_iff.mp hrun
          obtain ⟨⟨result, resumed⟩, hresume, hrun⟩ := Outcome.bind_eq_done_iff.mp hrun
          cases hrun
  · cases hrun

theorem returns_pauseResumeAll_of_no_block (hblock : memory.block = none)
    (hrun : Returns (fun fuel => heliosAddTask cfg fuel handle args memory state)
      (.errorMemoryLow, handle', state')) :
    ∃ result, Returns (fun fuel => pauseResumeAll cfg fuel state) (result, state') := by
  obtain ⟨fuel, first, paused, result, hpause, ⟨-, hresume⟩ | ⟨block, _, hsome, -⟩⟩ :=
    lowMemory_cases hrun
  · exact ⟨result, fuel, Outcome.bind_eq_done_iff.mpr ⟨_, hpause, hresume⟩⟩
  · rw [hblock] at hsome
    cases hsome

/-- A control block that was given stays allocated. -/
theorem mem_heapBlocks_of_block {block : Addr} (hblock : memory.block = some block)
    (hrun : Returns (fun fuel => heliosAddTask cfg fuel handle args memory state)
      (.errorMemoryLow, handle', state')) :
    block ∈ state'.heapBlocks := by
  obtain ⟨fuel, first, paused, result, -, ⟨hnone, -⟩ | ⟨_, begun, hsome, hheap, hresume⟩⟩ :=
    lowMemory_cases hrun
  · rw [hblock] at hnone
    cases hnone
  · obtain rfl := Option.some.inj (hblock.symm.trans hsome)
    rw [SchedState.heapBlocks_of_frame (frame_of_resumeAll ⟨fuel, hresume⟩), hheap]
    exact List.mem_cons_self

/-- A call of `helios_add_task` that finds memory low leaves no trace exactly when it is the
control block that is refused and all tasks were ready. -/
theorem untouched_iff (hbefore : BeforeRun state tasks waiting)
    (hfresh : ∀ block ∈ memory.block, block ∉ state.heapBlocks)
    (hrun : Returns (fun fuel => heliosAddTask cfg fuel handle args memory state)
      (.errorMemoryLow, handle', state')) :
    Untouched state state' tasks waiting ↔
      memory.block = none ∧ ∀ task ∈ tasks, state.status task = .ready := by
  cases hblock : memory.block with
  | some block =>
      have hleft := mem_heapBlocks_of_block hblock hrun
      have hnew : block ∉ state.heapBlocks := hfresh block hblock
      simp only [reduceCtorEq, false_and, iff_false]
      exact fun hsame => hnew ((hsame.heapBlocks block).mp hleft)
  | none =>
      obtain ⟨result, hpair⟩ := returns_pauseResumeAll_of_no_block hblock hrun
      obtain ⟨-, hswept⟩ := swept_of_pauseResumeAll hbefore.ready hpair
      simp only [true_and]
      constructor
      · intro hsame task htask
        rw [← hsame.status]
        exact (hswept.listed task htask).1
      · intro hready
        have hnil : waiting = [] := by
          apply List.eq_nil_iff_forall_not_mem.mpr
          intro task htask
          exact (hbefore.waits task htask).2 (hready task (hbefore.waits task htask).1)
        subst hnil
        obtain ⟨-, result', state'', hpair', hwait⟩ :=
          exists_pauseResumeAll cfg hbefore.ready hbefore.wait hbefore.curr hready
        obtain ⟨-, rfl⟩ := Prod.mk.inj (hpair.unique (fuelMono_pauseResumeAll cfg state) hpair')
        exact
          { ready := hbefore.ready.of_frame hswept.frame
            wait := hwait
            status := fun task => by
              by_cases htask : task ∈ tasks
              · rw [(hswept.listed task htask).1, hready task htask]
              · exact hswept.status task htask
            taskIdGen := SchedState.taskIdGen_of_frame hswept.frame
            heapBlocks := by simp [SchedState.heapBlocks_of_frame hswept.frame] }

end Call

/-! ## Two ready tasks -/

theorem readyPairWith_beforeRun : BeforeRun (readyPairWith none) [1, 2] [] where
  ready := (readyPairWith_lists (by simp)).ready
  wait := (readyPairWith_lists (by simp)).wait
  waits := nofun
  curr := rfl

/-- The call is refused its first or its second block. -/
def refused (block : Option Addr) : TaskMemory := ⟨block, Tcb.zero, 0⟩

theorem untouched_no_block : ∃ handle' state',
    Returns (fun fuel => heliosAddTask (defaultConfig false) fuel 0
      (idleTaskArgs (defaultConfig false)) (refused none) (readyPairWith none))
        (.errorMemoryLow, handle', state') ∧
      Untouched (readyPairWith none) state' [1, 2] [] := by
  obtain ⟨handle', state', hrun⟩ : ∃ handle' state',
      Returns (fun fuel => heliosAddTask (defaultConfig false) fuel 0
        (idleTaskArgs (defaultConfig false)) (refused none) (readyPairWith none))
          (.errorMemoryLow, handle', state') := ⟨_, _, 2, rfl⟩
  refine ⟨handle', state', hrun, (untouched_iff readyPairWith_beforeRun nofun hrun).mpr ⟨rfl, ?_⟩⟩
  simp only [List.forall_mem_cons]
  exact ⟨rfl, rfl, nofun⟩

/-- With a control block at address 3 and no stack, that block stays allocated. -/
theorem not_untouched_no_stack : ∃ handle' state',
    BeforeRun (readyPairWith none) [1, 2] [] ∧ 3 ∉ (readyPairWith none).heapBlocks ∧
      Returns (fun fuel => heliosAddTask (defaultConfig false) fuel 0
        (idleTaskArgs (defaultConfig false)) (refused (some 3)) (readyPairWith none))
          (.errorMemoryLow, handle', state') ∧
      ¬ Untouched (readyPairWith none) state' [1, 2] [] := by
  obtain ⟨handle', state', hrun⟩ : ∃ handle' state',
      Returns (fun fuel => heliosAddTask (defaultConfig false) fuel 0
        (idleTaskArgs (defaultConfig false)) (refused (some 3)) (readyPairWith none))
          (.errorMemoryLow, handle', state') := ⟨_, _, 2, rfl⟩
  have hnew : 3 ∉ (readyPairWith none).heapBlocks := List.not_mem_nil
  refine ⟨handle', state', readyPairWith_beforeRun, hnew, hrun, fun hsame => ?_⟩
  exact hnew ((hsame.heapBlocks 3).mp (mem_heapBlocks_of_block rfl hrun))

end Cyancore.Helios
