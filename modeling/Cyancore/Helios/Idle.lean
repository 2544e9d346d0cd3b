/-
# The clean-up of the idle task

`helios_task_idle.c` in its dynamic configuration.  The idle task walks round the ready
list and frees the tasks that have ended.  `__free_terminated_task` looks at the status of
the task *after* the one it was given, but takes the given one off the list and frees it:
whenever an ended task follows, a task in front of it is lost, and the ended one stays.
One round of the walk frees the right tasks only if there are none to free.
-/

import Cyancore.Helios.Rotation

namespace Cyancore.Helios

open Cyancore.Math

variable {state state' : SchedState} {ready front back rest : List Addr} {task succ last : Addr}

/-! ## The functions of the source -/

/-- `helios_free`. -/
def SchedState.release (state : SchedState) (addr : ℕ) : SchedState :=
  { state with heapBlocks := state.heapBlocks.erase addr }

/-- `__free_terminated_task`. -/
def freeTerminatedTask (ptr : Option Addr) (state : SchedState) :
    Run (Option Addr × SchedState) := do
  let task ← deref ptr
  let nextPtr := state.next .ready task
  let succ ← deref nextPtr
  if state.status succ = .exit then
    let (_, state) ← heliosSchedNodeDetach (some task) .ready state
    let state := state.release (state.tcb task).stackPtr
    return (nextPtr, state.release task)
  else return (nextPtr, state)

/-- So many turns of the loop of `_helios_idle_task_fn`, without the hooks and the yields
between them. -/
def idleTurns : ℕ → Option Addr × SchedState → Run (Option Addr × SchedState)
  | 0, cursor => return cursor
  | n + 1, (ptr, state) => do
      let cursor ← freeTerminatedTask ptr state
      idleTurns n cursor

/-- A round of the idle loop takes the ended tasks off the list and frees them and their stacks,
keeps the others in their order, and never carries on from a task that was freed. -/
structure CleansUp (ready : List Addr) (state : SchedState) : Prop where
  round : ∃ ptr state', idleTurns ready.length (ready.head?, state) = .done (ptr, state') ∧
    state'.ListIs .ready (ready.filter fun task => state.status task ≠ .exit) ∧
    ∀ block, block ∈ state'.heapBlocks ↔ block ∈ state.heapBlocks ∧
      ∀ task ∈ ready, state.status task = .exit →
        block ≠ task ∧ block ≠ (state.tcb task).stackPtr
  carried : ∀ n ≤ ready.length, ∀ ptr state',
    idleTurns n (ready.head?, state) = .done (some ptr, state') → ptr ∈ state'.heapBlocks

/-! ## One turn -/

/-- A task that is followed by one that has not ended is passed by. -/
theorem freeTerminatedTask_of_live (hsucc : state.next .ready task = some succ)
    (hlive : state.status succ ≠ .exit) :
    freeTerminatedTask (some task) state = .done (some succ, state) := by
  simp [freeTerminatedTask, hsucc, hlive]

/-- A task that is followed by one that has ended is taken off the list and freed. -/
theorem exists_freeTerminatedTask (hlist : state.ListIs .ready (front ++ task :: back))
    (hsucc : state.next .ready task = some succ) (hended : state.status succ = .exit) :
    ∃ state', freeTerminatedTask (some task) state = .done (some succ, state') ∧
      (front ++ back ≠ [] → state'.ListIs .ready (front ++ back)) ∧
      state'.status = state.status ∧
      state'.heapBlocks = (state.heapBlocks.erase (state.tcb task).stackPtr).erase task := by
  have hmem : task ∈ front ++ task :: back := by simp
  obtain ⟨pred, -, hpred⟩ := hlist.ring.exists_prev hmem
  have hdetach := nodeDetach_ready hpred.2 hsucc
  generalize hhead : (if some task = state.readyListHead then some succ
    else state.readyListHead) = head at hdetach
  refine ⟨((state.putList .ready ((state.links .ready).detach task pred succ) head).release
    (state.tcb task).stackPtr).release task, ?_, fun hrest => ?_, rfl, rfl⟩
  · simp only [freeTerminatedTask, deref_some, Outcome.done_bind, hsucc, if_pos hended, hdetach,
      Outcome.pure_eq]
    rfl
  · have hkept := hlist.ring.detach hpred.2 hsucc
    refine ⟨hkept, ?_⟩
    show head = (front ++ back).head?
    have hfirst : state.readyListHead = (front ++ task :: back).head? := hlist.head
    cases front with
    | nil =>
        rw [← hhead, if_pos (show some task = state.readyListHead from hfirst.symm)]
        obtain ⟨other, back, rfl⟩ := List.exists_cons_of_ne_nil hrest
        have hjoined := Links.Ring.joined_of_split [] back hlist.ring
        exact hsucc.symm.trans hjoined.1
    | cons first front =>
        have hne : task ≠ first := by
          rintro rfl
          have hnodup := hlist.ring.nodup
          simp at hnodup
        rw [← hhead, hfirst, if_neg (by simpa using hne)]
        rfl

/-! ## A round -/

/-- The tasks that are followed by one that has not ended. -/
def followedByLive (status : Addr → TaskStatus) : List Addr → List Addr
  | [] => []
  | [_] => []
  | task :: succ :: rest =>
      if status succ = .exit then followedByLive status (succ :: rest)
      else task :: followedByLive status (succ :: rest)

/-- The walk to the last task of the list leaves of the others those that are followed by one
that has not ended. -/
theorem exists_idleTurns (hlist : state.ListIs .ready (front ++ task :: rest)) :
    ∃ last state', (task :: rest).getLast? = some last ∧
      idleTurns rest.length (some task, state) = .done (some last, state') ∧
      state'.ListIs .ready (front ++ followedByLive state.status (task :: rest) ++ [last]) ∧
      state'.status = state.status ∧ state'.heapBlocks.Sublist state.heapBlocks := by
  induction rest generalizing state front task with
  | nil => exact ⟨task, state, rfl, rfl, by simpa [followedByLive] using hlist, rfl, .refl _⟩
  | cons succ rest ih =>
      have hsucc : state.next .ready task = some succ :=
        (Links.Ring.joined_of_split front rest hlist.ring).1
      by_cases hended : state.status succ = .exit
      · obtain ⟨freed, hrun, hkept, hstatus, hheap⟩ :=
          exists_freeTerminatedTask hlist hsucc hended
        obtain ⟨last, state', hlast, hrest, hlist', hstatus', hheap'⟩ := ih (hkept (by simp))
        refine ⟨last, state', by rwa [List.getLast?_cons_cons], ?_, ?_, hstatus'.trans hstatus, ?_⟩
        · simpa [idleTurns, hrun] using hrest
        · simpa [followedByLive, hended, hstatus] using hlist'
        · rw [hheap] at hheap'
          exact hheap'.trans (List.erase_sublist.trans List.erase_sublist)
      · have hrun := freeTerminatedTask_of_live hsucc hended
        obtain ⟨last, state', hlast, hrest, hlist', hstatus', hheap'⟩ :=
          @ih state (front ++ [task]) succ (by simpa using hlist)
        refine ⟨last, state', by rwa [List.getLast?_cons_cons], ?_, ?_, hstatus', hheap'⟩
        · simpa [idleTurns, hrun] using hrest
        · simpa [followedByLive, hended] using hlist'

theorem idleTurns_succ (n : ℕ) (cursor : Option Addr × SchedState) :
    idleTurns (n + 1) cursor =
      (idleTurns n cursor >>= fun cursor => freeTerminatedTask cursor.1 cursor.2) := by
  induction n generalizing cursor with
  | zero => cases hrun : freeTerminatedTask cursor.1 cursor.2 <;> simp [idleTurns, hrun]
  | succ n ih =>
      obtain ⟨ptr, state⟩ := cursor
      calc idleTurns (n + 2) (ptr, state)
          = freeTerminatedTask ptr state >>= idleTurns (n + 1) := rfl
        _ = freeTerminatedTask ptr state >>= fun cursor =>
              idleTurns n cursor >>= fun cursor => freeTerminatedTask cursor.1 cursor.2 :=
            congrArg _ (funext ih)
        _ = idleTurns (n + 1) (ptr, state) >>= fun cursor =>
              freeTerminatedTask cursor.1 cursor.2 := (Outcome.bind_assoc _ _ _).symm

/-- If no task has ended, the walk changes nothing. -/
theorem exists_idleTurns_of_live (hlist : state.ListIs .ready ready)
    (hlive : ∀ task ∈ ready, state.status task ≠ .exit) (n : ℕ) (hmem : task ∈ ready) :
    ∃ other ∈ ready, idleTurns n (some task, state) = .done (some other, state) := by
  induction n generalizing task with
  | zero => exact ⟨task, hmem, rfl⟩
  | succ n ih =>
      obtain ⟨succ, hsucc, hjoined⟩ := hlist.ring.exists_next hmem
      obtain ⟨other, hother, hrun⟩ := ih hsucc
      refine ⟨other, hother, ?_⟩
      rw [idleTurns, freeTerminatedTask_of_live hjoined.1 (hlive succ hsucc), Outcome.done_bind]
      exact hrun

/-! ## When the round frees the right tasks -/

theorem mem_of_mem_followedByLive {status : Addr → TaskStatus} {nodes : List Addr}
    (hmem : task ∈ followedByLive status nodes) : task ∈ nodes := by
  induction nodes with
  | nil => exact hmem
  | cons first rest ih =>
      cases rest with
      | nil => simp [followedByLive] at hmem
      | cons succ rest =>
          rw [followedByLive] at hmem
          split at hmem
          · exact List.mem_cons_of_mem first (ih hmem)
          · rcases List.mem_cons.mp hmem with rfl | hmem
            · exact List.mem_cons_self
            · exact List.mem_cons_of_mem first (ih hmem)

/-- What the walk leaves are the tasks that have not ended only if none has. -/
theorem live_of_followedByLive {status : Addr → TaskStatus} (hnodup : (task :: rest).Nodup)
    (hlast : (task :: rest).getLast? = some last)
    (hleft : followedByLive status (task :: rest) ++ [last] =
      (task :: rest).filter fun task => status task ≠ .exit) :
    ∀ other ∈ task :: rest, status other ≠ .exit := by
  induction rest generalizing task with
  | nil =>
      obtain rfl : task = last := by simpa using hlast
      have hmem : task ∈ [task].filter fun task => status task ≠ .exit := by
        rw [← hleft]
        simp
      simpa using hmem
  | cons succ rest ih =>
      obtain ⟨htask, hnodup⟩ := List.nodup_cons.mp hnodup
      rw [List.getLast?_cons_cons] at hlast
      have hlast' : last ∈ succ :: rest := List.mem_of_mem_getLast? hlast
      by_cases hended : status succ = .exit
      · -- the task in front of an ended one is gone, and the ended one is not
        have hleft' : followedByLive status (succ :: rest) ++ [last] =
            (succ :: rest).filter fun task => status task ≠ .exit := by
          rw [followedByLive, if_pos hended] at hleft
          rw [hleft, List.filter_cons_of_neg]
          simp only [decide_not, Bool.not_eq_true', decide_eq_false_iff_not, not_not]
          by_contra hlive
          have hmem : task ∈ followedByLive status (succ :: rest) ++ [last] := by
            rw [hleft]
            simp [hlive]
          rcases List.mem_append.mp hmem with hmem | hmem
          · exact htask (mem_of_mem_followedByLive hmem)
          · exact htask (List.mem_singleton.mp hmem ▸ hlast')
        exact absurd hended (ih hnodup hlast hleft' succ List.mem_cons_self)
      · rw [followedByLive, if_neg hended, List.cons_append] at hleft
        have hlive : status task ≠ .exit := by
          have hmem : task ∈ (task :: succ :: rest).filter fun task => status task ≠ .exit := by
            rw [← hleft]
            exact List.mem_cons_self
          simpa using (List.mem_filter.mp hmem).2
        rw [List.filter_cons_of_pos (by simpa using hlive)] at hleft
        have hrest := ih hnodup hlast (List.cons.inj hleft).2
        exact List.forall_mem_cons.mpr ⟨hlive, hrest⟩

/-- A round in which a task has ended leaves the wrong ones. -/
theorem live_of_cleansUp (hlist : state.ListIs .ready (task :: rest))
    (hheap : state.heapBlocks.Nodup) (hclean : CleansUp (task :: rest) state) :
    ∀ other ∈ task :: rest, state.status other ≠ .exit := by
  obtain ⟨last, middle, hlast, hturns, hlist', hstatus, hsublist⟩ :=
    @exists_idleTurns state [] rest task hlist
  obtain ⟨ptr, state', hround, hleft, -⟩ := hclean.round
  have hround' := hround
  rw [List.length_cons, idleTurns_succ, List.head?_cons, hturns, Outcome.done_bind] at hround'
  rw [List.nil_append] at hlist'
  obtain ⟨first, hfirst⟩ : ∃ first,
      (followedByLive state.status (task :: rest) ++ [last]).head? = some first :=
    ⟨_, List.head?_eq_some_head (by simp)⟩
  have hnext : middle.next .ready last = some first := (hlist'.ring.joined_last hfirst).1
  by_cases hended : middle.status first = .exit
  · exfalso
    obtain ⟨freed, hrun, hkept, -, hheap'⟩ := exists_freeTerminatedTask hlist' hnext hended
    obtain ⟨rfl, rfl⟩ := Prod.mk.inj (Outcome.done.inj (hrun.symm.trans hround'))
    by_cases hnil : followedByLive state.status (task :: rest) = []
    · -- the last task is its own successor, and carried on from although it was freed
      obtain rfl : last = first := by simpa [hnil] using hfirst
      have hcarried := hclean.carried _ le_rfl last freed hround
      rw [hheap'] at hcarried
      exact List.Nodup.not_mem_erase ((hheap.sublist hsublist).erase _) hcarried
    · rw [List.append_nil] at hkept
      have hsame := (hkept hnil).ready_unique hleft
      have hmem : first ∈ followedByLive state.status (task :: rest) := by
        rw [List.head?_append_of_ne_nil _ hnil] at hfirst
        exact List.mem_of_mem_head? hfirst
      rw [hsame] at hmem
      rw [hstatus] at hended
      simpa [hended] using (List.mem_filter.mp hmem).2
  · rw [freeTerminatedTask_of_live hnext hended] at hround'
    obtain ⟨-, rfl⟩ := Prod.mk.inj (Outcome.done.inj hround')
    exact live_of_followedByLive hlist.ring.nodup hlast (hlist'.ready_unique hleft)

/-- On a well-formed ready list whose tasks are allocated, a round of the idle loop frees the
ended tasks exactly if there are none. -/
theorem cleansUp_iff (hlist : state.ListIs .ready ready) (hheap : state.heapBlocks.Nodup)
    (halloc : ∀ task ∈ ready, task ∈ state.heapBlocks) :
    CleansUp ready state ↔ ∀ task ∈ ready, state.status task ≠ .exit := by
  cases ready with
  | nil =>
      refine iff_of_true ⟨⟨none, state, rfl, by simpa using hlist, by simp⟩, ?_⟩ (by simp)
      intro n hn ptr state' hrun
      obtain rfl : n = 0 := by simpa using hn
      cases (Prod.mk.inj (Outcome.done.inj hrun)).1
  | cons task rest =>
      refine ⟨live_of_cleansUp hlist hheap, fun hlive => ?_⟩
      have hwalk := fun n => exists_idleTurns_of_live hlist hlive n List.mem_cons_self
      refine ⟨?_, fun n _ ptr state' hrun => ?_⟩
      · obtain ⟨other, -, hrun⟩ := hwalk (task :: rest).length
        refine ⟨some other, state, hrun, ?_, fun block => ?_⟩
        · rwa [List.filter_eq_self.mpr (by simpa using hlive)]
        · refine ⟨fun h => ⟨h, fun task htask hended => ?_⟩, And.left⟩
          exact absurd hended (hlive task htask)
      · obtain ⟨other, hother, hrun'⟩ := hwalk n
        obtain ⟨hptr, rfl⟩ := Prod.mk.inj (Outcome.done.inj (hrun'.symm.trans hrun))
        exact Option.some.inj hptr ▸ halloc other hother

/-- Three allocated tasks that are ready. -/
def allocatedTriple : SchedState := { readyTriple with heapBlocks := [1, 2, 3] }

theorem allocatedTriple_listIs : allocatedTriple.ListIs .ready [1, 2, 3] :=
  ⟨readyTriple_listIs.ring, readyTriple_listIs.head⟩

theorem cleansUp_allocatedTriple : CleansUp [1, 2, 3] allocatedTriple :=
  (cleansUp_iff allocatedTriple_listIs (by decide) (by decide)).mpr (by decide)

/-- The third task has ended, and the second one is freed. -/
theorem not_cleansUp_thirdEnded :
    (allocatedTriple.setStatus 3 .exit).ListIs .ready [1, 2, 3] ∧
      (allocatedTriple.setStatus 3 .exit).heapBlocks.Nodup ∧
      (∀ task ∈ [1, 2, 3], task ∈ (allocatedTriple.setStatus 3 .exit).heapBlocks) ∧
      ¬ CleansUp [1, 2, 3] (allocatedTriple.setStatus 3 .exit) := by
  have hlist : (allocatedTriple.setStatus 3 .exit).ListIs .ready [1, 2, 3] := by
    refine ⟨?_, rfl⟩
    rw [SchedState.links_setStatus]
    exact allocatedTriple_listIs.ring
  have hheap : (allocatedTriple.setStatus 3 .exit).heapBlocks.Nodup := by decide
  refine ⟨hlist, hheap, by decide, fun hclean => ?_⟩
  exact absurd rfl (live_of_cleansUp hlist hheap hclean 3 (by decide))

end Cyancore.Helios
