/-
# The task that the priority search picks

The ready list is kept sorted by priority, so that its last ready task is the one to run,
and its head, the idle task, if none is ready.  `__helios_sched_algo_priority_driven_fn`
starts from the last task, but it goes on through the pointers of the wait list, so that
it meets blocked tasks only, or none at all.  It picks the task to run when that is the
one it starts from, or when every task is off and the idle task is on the wait list too.
-/

import Cyancore.Helios.Sleep
import Cyancore.Helios.Tick

namespace Cyancore.Helios

open Cyancore.Math

variable {state state' : SchedState} {ready waiting : List Addr} {head last task : Addr}

/-! ## The task to run -/

/-- Both lists are in good order, the wait list holds the blocked tasks of the ready list, and
the other tasks keep no link to it. -/
structure ListsThreaded (state : SchedState) (ready waiting : List Addr) : Prop where
  readyList : state.ListIs .ready ready
  waitList : state.ListIs .wait waiting
  blocked : ∀ task, task ∈ waiting ↔ task ∈ ready ∧ (state.status task).Blocked
  unlinked : ∀ task ∈ ready, task ∉ waiting → state.prev .wait task = none

theorem Calling.listsThreaded (hcall : Calling state task ready waiting) :
    ListsThreaded state ready waiting :=
  ⟨hcall.readyList, hcall.waitList, hcall.blocked, hcall.unlinked⟩

/-- The last ready task of the list. -/
def lastReady (state : SchedState) (ready : List Addr) : Option Addr :=
  ready.reverse.find? fun task => state.status task = .ready

/-- The task to run: the last ready one, or else the one that heads the list. -/
def taskToRun (state : SchedState) (ready : List Addr) : Option Addr :=
  (lastReady state ready).or ready.head?

/-- The call returns and has marked the task to run, and no other, as running; no ready task
has a greater priority. -/
def RunsBest (ready : List Addr) (state : SchedState) : Prop :=
  ∃ state' task, Returns (fun fuel => heliosSchedAlgoPriorityDrivenFn fuel state) state' ∧
    taskToRun state ready = some task ∧
    state'.status = Function.update state.status task .running ∧
    ∀ other ∈ ready, state.status other = .ready → state.priority other ≤ state.priority task

/-- The last task is ready; or it is blocked, as is the head, and no task is ready. -/
def SearchFinds (state : SchedState) (ready : List Addr) : Prop :=
  ∃ last ∈ ready.getLast?, state.status last = .ready ∨
    ((state.status last).Blocked ∧ (∀ task ∈ ready, state.status task ≠ .ready) ∧
      ∃ head ∈ ready.head?, (state.status head).Blocked)

theorem lastReady_concat_of_ready (hready : state.status last = .ready) :
    lastReady state (ready ++ [last]) = some last := by
  simp [lastReady, hready]

theorem lastReady_eq_none_iff :
    lastReady state ready = none ↔ ∀ task ∈ ready, state.status task ≠ .ready := by
  simp [lastReady]

theorem status_of_lastReady (hlast : lastReady state ready = some task) :
    state.status task = .ready := by
  simpa using List.find?_some hlast

/-- On a sorted list no ready task has a greater priority than the last one. -/
theorem priority_le_of_lastReady
    (hsorted : ready.Pairwise fun task other => state.priority task ≤ state.priority other)
    (hlast : lastReady state ready = some task) :
    ∀ other ∈ ready, state.status other = .ready →
      state.priority other ≤ state.priority task := by
  obtain ⟨-, behind, before, hsplit, hbehind⟩ := List.find?_eq_some_iff_append.mp hlast
  have hsorted' := List.pairwise_reverse.mpr hsorted
  rw [hsplit] at hsorted'
  intro other hother hready
  have hmem : other ∈ behind ++ task :: before := by
    rw [← hsplit]
    exact List.mem_reverse.mpr hother
  rcases List.mem_append.mp hmem with hmem | hmem
  · exact absurd hready (by simpa using hbehind other hmem)
  rcases List.mem_cons.mp hmem with rfl | hmem
  · exact le_rfl
  · have htail := (List.pairwise_append.mp hsorted').2.1
    exact (List.pairwise_cons.mp htail).1 other hmem

/-! ## The search -/

section Search

namespace ListsThreaded

variable (hlists : ListsThreaded state ready waiting)

include hlists

theorem not_ready_of_mem (hmem : task ∈ waiting) : state.status task ≠ .ready := by
  obtain hwait | hpause := ((hlists.blocked task).mp hmem).2
  · simp [hwait]
  · simp [hpause]

theorem readyListHead_eq (hhead : ready.head? = some head) : state.readyListHead = some head :=
  hlists.readyList.head.trans hhead

/-- The call is the search from the last task, and marks what it finds. -/
theorem returns_priorityDriven_iff (hhead : ready.head? = some head)
    (hlast : ready.getLast? = some last) :
    Returns (fun fuel => heliosSchedAlgoPriorityDrivenFn fuel state) state' ↔
      ∃ found, Returns (fun fuel => loop priorityTurn fuel (some last, state)) found ∧
        heliosSchedContextSwitch found.1 found.2 = .done state' := by
  obtain ⟨init, rfl⟩ := List.getLast?_eq_some_iff.mp hlast
  have hprev := (hlists.readyList.ring.joined_last hhead).2
  have hsearch := priorityDriven_eq (hlists.readyListHead_eq hhead) hprev
  simp only [hsearch]
  constructor
  · rintro ⟨fuel, hrun⟩
    obtain ⟨found, hloop, hswitch⟩ := Outcome.bind_eq_done_iff.mp hrun
    exact ⟨found, ⟨fuel, hloop⟩, hswitch⟩
  · rintro ⟨found, ⟨fuel, hloop⟩, hswitch⟩
    exact ⟨fuel, Outcome.bind_eq_done_iff.mpr ⟨found, hloop, hswitch⟩⟩

/-- A search from a blocked task never ends if the head of the ready list is not blocked: it
goes round the wait list. -/
theorem diverges_search (hhead : ready.head? = some head) (haway : head ∉ waiting)
    (hmem : last ∈ waiting) : Diverges fun fuel => loop priorityTurn fuel (some last, state) := by
  refine @diverges_loop _ _ _ _
    (fun cursor => ∃ task ∈ waiting, cursor = (some task, state)) ?_ _ ⟨last, hmem, rfl⟩
  rintro cursor ⟨task, htask, rfl⟩
  obtain ⟨pred, hpred, hjoined⟩ := hlists.waitList.ring.exists_prev htask
  refine ⟨(some pred, state), ?_, pred, hpred, rfl⟩
  apply priorityTurn_of_prev (hlists.not_ready_of_mem htask) hjoined.2
  rw [hlists.readyListHead_eq hhead]
  rintro heq
  exact haway (Option.some.inj heq ▸ hpred)

/-- If the head is on the wait list, the search from the task behind one that leads back to it
comes to it. -/
theorem returns_search_of_backTo (hhead : ready.head? = some head) {woken : SchedState}
    (hresume : heliosSchedSendToResume (some head) state = .done woken)
    (hback : (state.links .wait).BackTo head task) (htask : task ∈ waiting)
    {node : Addr} (hnode : node ∈ waiting) (hprev : state.prev .wait node = some task) :
    Returns (fun fuel => loop priorityTurn fuel (some node, state)) (some head, woken) := by
  have hfirst := hlists.readyListHead_eq hhead
  induction hback generalizing node with
  | here =>
      have hturn := priorityTurn_of_head (hlists.not_ready_of_mem hnode) hprev hfirst hresume
      exact (returns_loop_of_exit hturn).mpr rfl
  | @step task pred hpred _ ih =>
      by_cases hreached : task = head
      · subst hreached
        have hturn := priorityTurn_of_head (hlists.not_ready_of_mem hnode) hprev hfirst hresume
        exact (returns_loop_of_exit hturn).mpr rfl
      · have hturn := priorityTurn_of_prev (hlists.not_ready_of_mem hnode) hprev
          (by simpa [hfirst] using hreached)
        obtain ⟨pred', hmem, hjoined⟩ := hlists.waitList.ring.exists_prev htask
        obtain rfl : pred' = pred := Option.some.inj (hjoined.2.symm.trans hpred)
        exact (returns_loop_of_next hturn).mpr (ih hmem htask hpred)

/-- On a ring that holds the head of the ready list every search ends there. -/
theorem exists_returns_search (hhead : ready.head? = some head) (hidle : head ∈ waiting)
    (hmem : last ∈ waiting) :
    ∃ woken, Returns (fun fuel => loop priorityTurn fuel (some last, state)) (some head, woken) ∧
      woken.status = Function.update state.status head .ready := by
  obtain ⟨woken, hresume, -, -, hstatus, -⟩ :=
    exists_resumed hlists.waitList hidle ((hlists.blocked head).mp hidle).2
  obtain ⟨pred, hpred, hjoined⟩ := hlists.waitList.ring.exists_prev hmem
  have hback : (state.links .wait).BackTo head pred := by
    obtain ⟨front, back, rfl⟩ := List.append_of_mem hidle
    by_cases hreached : pred = head
    · rw [hreached]
      exact .here
    · apply hlists.waitList.ring.backTo_of_prev (fun _ _ => .inl rfl) pred
      simpa [hreached] using hpred
  exact ⟨woken, hlists.returns_search_of_backTo hhead hresume hback hpred hmem hjoined.2, hstatus⟩

end ListsThreaded

end Search

/-! ## When the search finds the task to run -/

section Finding

variable (hlists : ListsThreaded state ready waiting)

include hlists

/-- A last task that is ready is the one to run. -/
theorem ListsThreaded.runsBest_of_ready
    (hsorted : ready.Pairwise fun task other => state.priority task ≤ state.priority other)
    (hhead : ready.head? = some head) (hlast : ready.getLast? = some last)
    (hready : state.status last = .ready) : RunsBest ready state := by
  have hfound : lastReady state ready = some last := by
    obtain ⟨init, rfl⟩ := List.getLast?_eq_some_iff.mp hlast
    exact lastReady_concat_of_ready hready
  have hreturns : Returns (fun fuel => loop priorityTurn fuel (some last, state))
      (some last, state) := (returns_loop_of_exit (priorityTurn_of_ready hready)).mpr rfl
  exact ⟨state.setStatus last .running, last,
    (hlists.returns_priorityDriven_iff hhead hlast).mpr ⟨_, hreturns, rfl⟩,
    by simp [taskToRun, hfound], SchedState.status_setStatus _ _ _,
    priority_le_of_lastReady hsorted hfound⟩

/-- From a last task that is not on the wait list nothing is found. -/
theorem ListsThreaded.not_runsBest_of_unlinked (hhead : ready.head? = some head)
    (hlast : ready.getLast? = some last) (hready : state.status last ≠ .ready)
    (hblocked : ¬ (state.status last).Blocked) : ¬ RunsBest ready state := by
  rintro ⟨state', task, hreturns, -⟩
  obtain ⟨found, hloop, -⟩ := (hlists.returns_priorityDriven_iff hhead hlast).mp hreturns
  have hprev := hlists.unlinked last (List.mem_of_mem_getLast? hlast)
    fun hmem => hblocked ((hlists.blocked last).mp hmem).2
  exact not_returns_search_of_unlinked (hlists.readyListHead_eq hhead) hready hprev hloop

/-- Nor from a blocked one, when the head is not blocked. -/
theorem ListsThreaded.not_runsBest_of_away (hhead : ready.head? = some head)
    (hlast : ready.getLast? = some last) (hblocked : (state.status last).Blocked)
    (haway : ¬ (state.status head).Blocked) : ¬ RunsBest ready state := by
  rintro ⟨state', task, hreturns, -⟩
  obtain ⟨found, hloop, -⟩ := (hlists.returns_priorityDriven_iff hhead hlast).mp hreturns
  have hmem := (hlists.blocked last).mpr ⟨List.mem_of_mem_getLast? hlast, hblocked⟩
  have hdiverges := hlists.diverges_search hhead
    (fun hidle => haway ((hlists.blocked head).mp hidle).2) hmem
  exact hdiverges.not_returns found hloop

/-- With the last task and the head blocked the head is picked, which is the task to run if no
task is ready. -/
theorem ListsThreaded.runsBest_iff_of_blocked (hhead : ready.head? = some head)
    (hlast : ready.getLast? = some last) (hblocked : (state.status last).Blocked)
    (hidle : (state.status head).Blocked) :
    RunsBest ready state ↔ ∀ task ∈ ready, state.status task ≠ .ready := by
  have hmem := (hlists.blocked last).mpr ⟨List.mem_of_mem_getLast? hlast, hblocked⟩
  have hmem' := (hlists.blocked head).mpr ⟨List.mem_of_mem_head? hhead, hidle⟩
  obtain ⟨woken, hreturns, hstatus⟩ := hlists.exists_returns_search hhead hmem' hmem
  have hpicks : Returns (fun fuel => heliosSchedAlgoPriorityDrivenFn fuel state)
      (woken.setStatus head .running) :=
    (hlists.returns_priorityDriven_iff hhead hlast).mpr ⟨_, hreturns, rfl⟩
  have hmarked : (woken.setStatus head .running).status =
      Function.update state.status head .running := by
    rw [SchedState.status_setStatus, hstatus, Function.update_idem]
  constructor
  · rintro ⟨state', task, hreturns', hrun, hstatus', -⟩
    obtain rfl := hreturns'.unique (fuelMono_priorityDriven state) hpicks
    rw [← lastReady_eq_none_iff]
    by_contra hsome
    obtain ⟨best, hbest⟩ := Option.ne_none_iff_exists'.mp hsome
    have hready := status_of_lastReady hbest
    obtain rfl : best = task := by simpa [taskToRun, hbest] using hrun
    have hne : best ≠ head := by
      rintro rfl
      simp [hready, TaskStatus.Blocked] at hidle
    -- the ready task is not the one that was marked
    have hkept := congrFun (hmarked.symm.trans hstatus') best
    rw [Function.update_of_ne hne, Function.update_self, hready] at hkept
    cases hkept
  · intro hnone
    refine ⟨_, head, hpicks, ?_, hmarked, fun other hother hready => ?_⟩
    · simp [taskToRun, lastReady_eq_none_iff.mpr hnone, hhead]
    · exact absurd hready (hnone other hother)

end Finding

/-- The priority algorithm runs the best ready task exactly if that is the last one of the list,
or no task is ready and both the last one and the head are blocked. -/
theorem runsBest_iff (hlists : ListsThreaded state ready waiting)
    (hsorted : ready.Pairwise fun task other => state.priority task ≤ state.priority other) :
    RunsBest ready state ↔ SearchFinds state ready := by
  cases hhead : ready.head? with
  | none =>
      obtain rfl := List.head?_eq_none_iff.mp hhead
      refine iff_of_false ?_ (by simp [SearchFinds])
      rintro ⟨state', task, -, hrun, -⟩
      simp [taskToRun, lastReady] at hrun
  | some head =>
      obtain ⟨last, hlast⟩ : ∃ last, ready.getLast? = some last := by
        obtain ⟨rest, rfl⟩ := List.head?_eq_some_iff.mp hhead
        exact ⟨_, List.getLast?_cons⟩
      simp only [SearchFinds, hhead, hlast, Option.mem_some_iff, exists_eq_left']
      by_cases hready : state.status last = .ready
      · exact iff_of_true (hlists.runsBest_of_ready hsorted hhead hlast hready) (.inl hready)
      rw [or_iff_right hready]
      by_cases hblocked : (state.status last).Blocked
      swap
      · exact iff_of_false (hlists.not_runsBest_of_unlinked hhead hlast hready hblocked)
          fun h => hblocked h.1
      rw [and_iff_right hblocked]
      by_cases hidle : (state.status head).Blocked
      · rw [and_iff_left hidle, hlists.runsBest_iff_of_blocked hhead hlast hblocked hidle]
      · exact iff_of_false (hlists.not_runsBest_of_away hhead hlast hblocked hidle)
          fun h => hidle h.2

/-! ## Two tasks -/

theorem sleepingPair_threaded : ListsThreaded (sleepingPair 5 5) [1, 2] [1, 2] where
  readyList := ⟨⟨by decide, .cons_cons ⟨rfl, rfl⟩ (.cons_cons ⟨rfl, rfl⟩ (.singleton 1))⟩, rfl⟩
  waitList := sleepingPair_listIs 5 5
  blocked := fun task =>
    ⟨fun hmem => ⟨hmem, .inl (sleepingPair_status 5 5 task hmem)⟩, And.left⟩
  unlinked := fun task hmem haway => absurd hmem haway

/-- When both tasks wait, the first one, which is the idle task, is resumed and run. -/
theorem runsBest_sleepingPair : RunsBest [1, 2] (sleepingPair 5 5) :=
  (runsBest_iff sleepingPair_threaded (by decide)).mpr
    ⟨2, rfl, .inr ⟨by decide, by decide, 1, rfl, by decide⟩⟩

/-- With the first task ready and the second one alone on the wait list the search goes round
for ever. -/
theorem not_runsBest_waitingPair :
    ListsThreaded waitingPair [1, 2] [2] ∧
      ([1, 2].Pairwise fun task other => waitingPair.priority task ≤ waitingPair.priority other) ∧
      ¬ RunsBest [1, 2] waitingPair := by
  have hlists := waitingPair_calling.listsThreaded
  exact ⟨hlists, by decide, hlists.not_runsBest_of_away rfl rfl (by decide) (by decide)⟩

end Cyancore.Helios
