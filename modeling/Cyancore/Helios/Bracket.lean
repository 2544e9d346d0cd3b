/-
# Pausing all tasks and resuming them

`helios_add_task` creates a task between `helios_pause_all_task` and
`helios_resume_all_task`.  The pair is meant to stop the system and to start it again
as it was.  The first sweep does not move past the current task, and the second one
turns every task it finds blocked into a ready one with no delay left, whatever it was
before.  The pair restores the tasks of exactly those states in which there is no
current task and every task is ready without a delay.
-/

import Cyancore.Helios.ReadyList

namespace Cyancore.Helios

open Cyancore.Math

variable {cfg : HeliosConfig} {state state' : SchedState}

/-- `helios_pause_all_task`, then `helios_resume_all_task`. -/
def pauseResumeAll (cfg : HeliosConfig) (fuel : ℕ) (state : SchedState) :
    Run (Status × SchedState) := do
  let (_, state) ← heliosPauseAllTask cfg fuel state
  heliosResumeAllTask fuel state

theorem fuelMono_pauseResumeAll (cfg : HeliosConfig) (state : SchedState) :
    FuelMono fun fuel => pauseResumeAll cfg fuel state :=
  (fuelMono_pauseAll cfg state).bind fun value => fuelMono_resumeAll value.2

/-! ## What a sweep leaves, if it ends -/

/-- The status and the delay of the listed tasks are as given, and nothing else has changed
but the wait list. -/
structure SweptOver (nodes : List Addr) (left : TaskStatus → ℕ → Prop)
    (state state' : SchedState) : Prop where
  frame : state'.frame = state.frame
  listed : ∀ task ∈ nodes, left (state'.status task) (state'.delay task)
  status : ∀ task, task ∉ nodes → state'.status task = state.status task
  delay : ∀ task, task ∉ nodes → state'.delay task = state.delay task

/-- How `helios_pause_all_task` leaves a task. -/
def Paused (status : TaskStatus) (_delay : ℕ) : Prop := status = .pause

/-- How `helios_resume_all_task` leaves a task that was blocked. -/
def AtRest (status : TaskStatus) (delay : ℕ) : Prop := status = .ready ∧ delay = 0

/-- Moving one task onto or off the wait list with a new status and delay. -/
theorem SweptOver.singleton {left : TaskStatus → ℕ → Prop} (links : Links Addr) (head : Option Addr)
    {task : Addr} {value : TaskStatus} {ticks : ℕ} (hleft : left value ticks) :
    SweptOver [task] left state
      (((state.putList .wait links head).setDelay task ticks).setStatus task value) where
  frame := by simp
  listed := by simpa using hleft
  status := by
    intro other hother
    rw [List.mem_singleton] at hother
    simp [Function.update_of_ne hother]
  delay := by
    intro other hother
    rw [List.mem_singleton] at hother
    simp [Function.update_of_ne hother]

/-- Sweeping one task and then the tasks behind it sweeps them all. -/
theorem SweptOver.cons {task : Addr} {rest : List Addr} {left : TaskStatus → ℕ → Prop}
    {middle : SchedState} (hfirst : SweptOver [task] left state middle)
    (hrest : SweptOver rest left middle state') : SweptOver (task :: rest) left state state' where
  frame := hrest.frame.trans hfirst.frame
  listed := by
    intro other hother
    by_cases hmem : other ∈ rest
    · exact hrest.listed other hmem
    · rw [hrest.status other hmem, hrest.delay other hmem]
      apply hfirst.listed
      simpa [hmem] using hother
  status := by
    intro other hother
    rw [List.mem_cons, not_or] at hother
    rw [hrest.status other hother.2, hfirst.status other (by simpa using hother.1)]
  delay := by
    intro other hother
    rw [List.mem_cons, not_or] at hother
    rw [hrest.delay other hother.2, hfirst.delay other (by simpa using hother.1)]

/-- A pause that returns leaves its task paused. -/
theorem swept_of_sendToPause {task : Addr}
    (hrun : heliosSchedSendToPause cfg (some task) state = .done state') :
    SweptOver [task] Paused state state' := by
  rcases sendToWaitList_cases hrun with ⟨hstatus, rfl⟩ | ⟨-, links, head, rfl⟩
  · exact ⟨rfl, by simpa [Paused] using hstatus, fun _ _ => rfl, fun _ _ => rfl⟩
  · exact SweptOver.singleton links head rfl

/-- A resumption of a blocked task that returns leaves it ready without a delay. -/
theorem swept_of_sendToResume {task : Addr} (hblocked : (state.status task).Blocked)
    (hrun : heliosSchedSendToResume (some task) state = .done state') :
    SweptOver [task] AtRest state state' := by
  rcases sendToResume_cases hrun with ⟨hready, -⟩ | ⟨-, links, head, rfl⟩
  · exact absurd hblocked hready
  · exact SweptOver.singleton links head ⟨rfl, rfl⟩

/-- The sweep of `helios_pause_all_task` never gets past the current task. -/
theorem diverges_pauseAllLoop_of_curr {ptr : Option Addr} (hcurr : ptr = state.currTask) :
    Diverges fun fuel => loop (pauseAllTurn cfg) fuel (ptr, state) := by
  apply @diverges_loop _ _ _ _ (fun cursor => cursor = (ptr, state))
  · rintro cursor rfl
    exact ⟨(ptr, state), by simp [pauseAllTurn, hcurr], rfl⟩
  · rfl

/-- If the sweep of `helios_pause_all_task` ends, it met no current task and paused every
task on its way. -/
theorem swept_of_pauseAllLoop {rest : List Addr} (hwalk : ReadyWalk state rest)
    (hloop : Returns (fun fuel => loop (pauseAllTurn cfg) fuel (rest.head?, state)) state') :
    (∀ task ∈ rest, some task ≠ state.currTask) ∧ SweptOver rest Paused state state' := by
  induction rest generalizing state with
  | nil => exact hwalk.elim
  | cons task rest ih =>
      have hmoved : some task ≠ state.currTask := fun hcurr =>
        (diverges_pauseAllLoop_of_curr hcurr).not_returns state' hloop
      obtain ⟨turn, hturn⟩ := exists_turn_of_returns_loop hloop
      obtain ⟨paused, hrun⟩ : ∃ paused, heliosSchedSendToPause cfg (some task) state =
          .done paused := by
        rw [List.head?_cons, pauseAllTurn, if_neg hmoved] at hturn
        obtain ⟨paused, hrun, -⟩ := Outcome.bind_eq_done_iff.mp hturn
        exact ⟨paused, hrun⟩
      have hfirst := swept_of_sendToPause hrun
      have hnext := SchedState.next_ready_of_frame hfirst.frame
      have hhead := SchedState.readyListHead_of_frame hfirst.frame
      cases rest with
      | nil =>
          have hexit : pauseAllTurn cfg (some task, state) = .done (.exit paused) := by
            simp [pauseAllTurn, hmoved, hrun, hnext, hhead,
              show state.next .ready task = state.readyListHead from hwalk]
          obtain rfl := (returns_loop_of_exit hexit).mp hloop
          exact ⟨by simpa using hmoved, hfirst⟩
      | cons succ rest =>
          obtain ⟨hsucc, hne, hwalk⟩ := hwalk
          have hround : pauseAllTurn cfg (some task, state) =
              .done (.next (some succ, paused)) := by
            simp [pauseAllTurn, hmoved, hrun, hnext, hhead, hsucc, hne]
          obtain ⟨hcurr, hrest⟩ := ih (hwalk.of_frame hfirst.frame)
            ((returns_loop_of_next hround).mp hloop)
          rw [SchedState.currTask_of_frame hfirst.frame] at hcurr
          exact ⟨List.forall_mem_cons.mpr ⟨hmoved, hcurr⟩, hfirst.cons hrest⟩

/-- If the sweep of `helios_resume_all_task` over blocked tasks ends, it left all of them
ready and without a delay. -/
theorem swept_of_resumeAllLoop {task head : Addr} {rest : List Addr}
    (hwalk : ReadyWalk state (task :: rest)) (hhead : state.readyListHead = some head)
    (hnodup : (rest ++ [head]).Nodup)
    (hblocked : ∀ other ∈ rest ++ [head], (state.status other).Blocked)
    (hloop : Returns (fun fuel => loop resumeAllTurn fuel (some task, state)) state') :
    SweptOver (rest ++ [head]) AtRest state state' := by
  induction rest generalizing state task with
  | nil =>
      have hnext : state.next .ready task = some head := hhead ▸ hwalk
      obtain ⟨turn, hturn⟩ := exists_turn_of_returns_loop hloop
      simp only [resumeAllTurn, deref_some, Outcome.done_bind, hnext] at hturn
      obtain ⟨resumed, hrun, -⟩ := Outcome.bind_eq_done_iff.mp hturn
      have hfirst := swept_of_sendToResume (hblocked head (by simp)) hrun
      have hexit : resumeAllTurn (some task, state) = .done (.exit resumed) := by
        simp [resumeAllTurn, hnext, hrun, SchedState.readyListHead_of_frame hfirst.frame, hhead]
      obtain rfl := (returns_loop_of_exit hexit).mp hloop
      exact hfirst
  | cons succ rest ih =>
      obtain ⟨hnext, hne, hwalk⟩ := hwalk
      obtain ⟨turn, hturn⟩ := exists_turn_of_returns_loop hloop
      simp only [resumeAllTurn, deref_some, Outcome.done_bind, hnext] at hturn
      obtain ⟨resumed, hrun, -⟩ := Outcome.bind_eq_done_iff.mp hturn
      have hfirst := swept_of_sendToResume (hblocked succ (by simp)) hrun
      have hhead' := (SchedState.readyListHead_of_frame hfirst.frame).trans hhead
      have hround : resumeAllTurn (some task, state) = .done (.next (some succ, resumed)) := by
        simp [resumeAllTurn, hnext, hrun, hhead', ← hhead, hne]
      obtain ⟨hsucc, hnodup⟩ := List.nodup_cons.mp hnodup
      have hrest : SweptOver (rest ++ [head]) AtRest resumed state' := by
        apply ih (hwalk.of_frame hfirst.frame) hhead' hnodup
        · intro other hother
          have hother' : other ∉ [succ] := fun h => hsucc (List.mem_singleton.mp h ▸ hother)
          rw [hfirst.status other hother']
          exact hblocked other (List.mem_cons_of_mem succ hother)
        · exact (returns_loop_of_next hround).mp hloop
      exact hfirst.cons hrest

/-! ## The pair -/

/-- The pair ends, and every task has its status, its delay and its place on or off the
wait list back. -/
def BracketRestores (cfg : HeliosConfig) (state : SchedState) (waiting : List Addr) : Prop :=
  (∃ paused, Returns (fun fuel => heliosPauseAllTask cfg fuel state) paused) ∧
    ∃ result state' waiting', Returns (fun fuel => pauseResumeAll cfg fuel state) (result, state') ∧
      state'.status = state.status ∧ state'.delay = state.delay ∧
      state'.ListIs .wait waiting' ∧ ∀ task, task ∈ waiting' ↔ task ∈ waiting

/-- If `helios_resume_all_task` ends on a list of blocked tasks, all of them are ready. -/
theorem swept_of_resumeAll {queue : List Addr} {result : Status}
    (hready : state.ListIs .ready queue)
    (hblocked : ∀ task ∈ queue, (state.status task).Blocked)
    (hrun : Returns (fun fuel => heliosResumeAllTask fuel state) (result, state')) :
    SweptOver queue AtRest state state' := by
  have hhead : state.readyListHead = queue.head? := hready.head
  cases queue with
  | nil =>
      obtain ⟨fuel, hrun⟩ := hrun
      simp only [heliosResumeAllTask, if_pos (show state.readyListHead = none from hhead)] at hrun
      obtain ⟨-, rfl⟩ := Prod.mk.inj (Outcome.done.inj hrun)
      exact ⟨rfl, by simp, fun _ _ => rfl, fun _ _ => rfl⟩
  | cons head rest =>
      have hround : ∀ task, task ∈ rest ++ [head] ↔ task ∈ head :: rest := by
        intro task
        simp [or_comm]
      have hhead' : state.readyListHead = some head := hhead
      obtain ⟨value, hloop, hvalue⟩ : ∃ value,
          Returns (fun fuel => loop resumeAllTurn fuel (some head, state)) value ∧
            (Status.success, value) = (result, state') := by
        simp only [heliosResumeAllTask, hhead', Outcome.pure_eq,
          if_neg (Option.some_ne_none head)] at hrun
        exact returns_bind_done_iff.mp hrun
      obtain ⟨-, rfl⟩ := Prod.mk.inj hvalue
      have hnodup : (rest ++ [head]).Nodup :=
        (List.perm_append_singleton head rest).nodup_iff.mpr hready.ring.nodup
      have hswept := swept_of_resumeAllLoop (hready.readyWalk (by simp)) hhead' hnodup
        (fun task h => hblocked task ((hround task).mp h)) hloop
      exact
        { frame := hswept.frame
          listed := fun task h => hswept.listed task ((hround task).mpr h)
          status := fun task h => hswept.status task (mt (hround task).mp h)
          delay := fun task h => hswept.delay task (mt (hround task).mp h) }

/-- If `helios_pause_all_task` ends, no task is current and all are paused. -/
theorem swept_of_pauseAll {queue : List Addr} {result : Status}
    (hready : state.ListIs .ready queue)
    (hrun : Returns (fun fuel => heliosPauseAllTask cfg fuel state) (result, state')) :
    (∀ task ∈ queue, some task ≠ state.currTask) ∧ SweptOver queue Paused state state' := by
  have hhead : state.readyListHead = queue.head? := hready.head
  cases queue with
  | nil =>
      obtain ⟨fuel, hrun⟩ := hrun
      simp only [heliosPauseAllTask, if_pos (show state.readyListHead = none from hhead)] at hrun
      obtain ⟨-, rfl⟩ := Prod.mk.inj (Outcome.done.inj hrun)
      exact ⟨by simp, rfl, by simp, fun _ _ => rfl, fun _ _ => rfl⟩
  | cons head rest =>
      have hhead' : state.readyListHead = some head := hhead
      obtain ⟨value, hloop, hvalue⟩ : ∃ value,
          Returns (fun fuel => loop (pauseAllTurn cfg) fuel (some head, state)) value ∧
            (Status.success, value) = (result, state') := by
        simp only [heliosPauseAllTask, hhead', Outcome.pure_eq,
          if_neg (Option.some_ne_none head)] at hrun
        exact returns_bind_done_iff.mp hrun
      obtain ⟨-, rfl⟩ := Prod.mk.inj hvalue
      exact swept_of_pauseAllLoop (hready.readyWalk (by simp)) hloop

/-- If the pair ends, no task is current, and all tasks are ready without a delay. -/
theorem swept_of_pauseResumeAll {queue : List Addr} {result : Status}
    (hready : state.ListIs .ready queue)
    (hrun : Returns (fun fuel => pauseResumeAll cfg fuel state) (result, state')) :
    (∀ task ∈ queue, some task ≠ state.currTask) ∧ SweptOver queue AtRest state state' := by
  obtain ⟨⟨first, paused⟩, hpause, hresume⟩ := (returns_bind_iff (fuelMono_pauseAll cfg state)
    fun value => fuelMono_resumeAll value.2).mp hrun
  obtain ⟨hcurr, hpaused⟩ := swept_of_pauseAll hready hpause
  have hready' : paused.ListIs .ready queue := hready.of_frame hpaused.frame
  have hrest := swept_of_resumeAll hready'
    (fun task h => .inr (hpaused.listed task h)) hresume
  refine ⟨hcurr, hrest.frame.trans hpaused.frame, hrest.listed, fun task h => ?_, fun task h => ?_⟩
  · rw [hrest.status task h, hpaused.status task h]
  · rw [hrest.delay task h, hpaused.delay task h]

/-- The two lists as the scheduler keeps them: the wait list holds the blocked tasks, and the
current task, if there is one, is a task. -/
structure ListsAgree (state : SchedState) (tasks waiting : List Addr) : Prop where
  ready : state.ListIs .ready tasks
  wait : state.ListIs .wait waiting
  blocked : ∀ task, task ∈ waiting ↔ task ∈ tasks ∧ (state.status task).Blocked
  curr : ∀ task, state.currTask = some task → task ∈ tasks

/-- With no task current or blocked the pair ends, and leaves the wait list empty. -/
theorem exists_pauseResumeAll (cfg : HeliosConfig) {tasks : List Addr}
    (hready : state.ListIs .ready tasks) (hwait : state.ListIs .wait [])
    (hcurr : state.currTask = none) (hstatus : ∀ task ∈ tasks, state.status task = .ready) :
    (∃ paused, Returns (fun fuel => heliosPauseAllTask cfg fuel state) paused) ∧
      ∃ result state', Returns (fun fuel => pauseResumeAll cfg fuel state) (result, state') ∧
        state'.ListIs .wait [] := by
  obtain ⟨paused, ⟨enough, hpause⟩, hlist, hframe, hpaused⟩ := eventually_pauseAll cfg hready hwait
    (fun task _ => by simp [hcurr]) (fun task h => by simp [hstatus task h])
  have hfirst : Returns (fun fuel => heliosPauseAllTask cfg fuel state) (.success, paused) :=
    ⟨enough, hpause enough le_rfl⟩
  refine ⟨⟨_, hfirst⟩, ?_⟩
  have hpair : ∀ final, Returns (fun fuel => heliosResumeAllTask fuel paused) final →
      Returns (fun fuel => pauseResumeAll cfg fuel state) final := by
    intro final hfinal
    apply (returns_bind_iff (fuelMono_pauseAll cfg state)
      fun value => fuelMono_resumeAll value.2).mpr
    exact ⟨_, hfirst, hfinal⟩
  by_cases htasks : tasks = []
  · subst htasks
    have hhead : paused.readyListHead = none := (hready.of_frame hframe).head
    refine ⟨.errorOsInvalidOp, paused, hpair _ ⟨0, ?_⟩, hlist⟩
    simp [heliosResumeAllTask, hhead]
  · obtain ⟨resumed, ⟨enough', hresume⟩, ⟨waiting, hlist', hmem⟩, -, -⟩ :=
      eventually_resumeAll htasks (hready.of_frame hframe) hlist
        fun task h => by simp [hpaused, h, TaskStatus.Blocked]
    have hnil : waiting = [] := by
      apply List.eq_nil_iff_forall_not_mem.mpr
      intro task htask
      exact ((hmem task).mp htask).2 ((hmem task).mp htask).1
    exact ⟨.success, resumed, hpair _ ⟨enough', hresume enough' le_rfl⟩, hnil ▸ hlist'⟩

/-- The pair restores the tasks exactly when none of them is current and all of them were
ready without a delay. -/
theorem bracketRestores_iff (cfg : HeliosConfig) {tasks waiting : List Addr}
    (hlists : ListsAgree state tasks waiting) :
    BracketRestores cfg state waiting ↔
      state.currTask = none ∧
        ∀ task ∈ tasks, state.status task = .ready ∧ state.delay task = 0 := by
  constructor
  · rintro ⟨-, result, state', waiting', hrun, hstatus, hdelay, -, -⟩
    obtain ⟨hcurr, hswept⟩ := swept_of_pauseResumeAll hlists.ready hrun
    refine ⟨?_, fun task htask => ?_⟩
    · cases hcase : state.currTask with
      | none => rfl
      | some task => exact absurd hcase.symm (hcurr task (hlists.curr task hcase))
    · rw [← hstatus, ← hdelay]
      exact hswept.listed task htask
  · rintro ⟨hcurr, hrest⟩
    have hnil : waiting = [] := by
      apply List.eq_nil_iff_forall_not_mem.mpr
      intro task htask
      obtain ⟨hmem, hblocked⟩ := (hlists.blocked task).mp htask
      simp [(hrest task hmem).1, TaskStatus.Blocked] at hblocked
    subst hnil
    obtain ⟨hpause, result, state', hrun, hwait⟩ := exists_pauseResumeAll cfg hlists.ready
      hlists.wait hcurr fun task h => (hrest task h).1
    obtain ⟨-, hswept⟩ := swept_of_pauseResumeAll hlists.ready hrun
    refine ⟨hpause, result, state', [], hrun, ?_, ?_, hwait, fun _ => Iff.rfl⟩
    · ext task
      by_cases htask : task ∈ tasks
      · rw [(hswept.listed task htask).1, (hrest task htask).1]
      · exact hswept.status task htask
    · ext task
      by_cases htask : task ∈ tasks
      · rw [(hswept.listed task htask).2, (hrest task htask).2]
      · exact hswept.delay task htask

/-- Two ready tasks with the given current task. -/
def readyPairWith (curr : Option Addr) : SchedState := { readyPair with currTask := curr }

theorem readyPairWith_lists {curr : Option Addr} (hcurr : ∀ task ∈ curr, task ∈ [1, 2]) :
    ListsAgree (readyPairWith curr) [1, 2] [] where
  ready := ⟨readyPair_listIs.ring, readyPair_listIs.head⟩
  wait := ⟨Links.ring_nil, rfl⟩
  blocked := by
    have hready : ∀ task ∈ [1, 2], ¬ ((readyPairWith curr).status task).Blocked := by
      simp only [List.forall_mem_cons]
      exact ⟨nofun, nofun, nofun⟩
    intro task
    simpa using hready task
  curr := hcurr

theorem bracketRestores_readyPair_of_boot :
    ListsAgree (readyPairWith none) [1, 2] [] ∧
      BracketRestores (defaultConfig false) (readyPairWith none) [] := by
  have hlists : ListsAgree (readyPairWith none) [1, 2] [] := readyPairWith_lists (by simp)
  refine ⟨hlists, (bracketRestores_iff _ hlists).mpr ⟨rfl, ?_⟩⟩
  simp only [List.forall_mem_cons]
  exact ⟨⟨rfl, rfl⟩, ⟨rfl, rfl⟩, nofun⟩

/-- With the first of two ready tasks current, `helios_pause_all_task` never returns. -/
theorem not_bracketRestores_readyPair :
    ListsAgree (readyPairWith (some 1)) [1, 2] [] ∧
      ¬ BracketRestores (defaultConfig false) (readyPairWith (some 1)) [] := by
  have hlists : ListsAgree (readyPairWith (some 1)) [1, 2] [] := readyPairWith_lists (by simp)
  refine ⟨hlists, ?_⟩
  rintro ⟨⟨⟨result, paused⟩, hpause⟩, -⟩
  exact (swept_of_pauseAll hlists.ready hpause).1 1 (by simp) rfl

end Cyancore.Helios
