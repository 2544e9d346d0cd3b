/-
# Moving a task of the ready list

The pre-scheduler calls `_helios_sched_send_back_of_task_prio` with the current
task, which already is on the ready list.  Whether a task is linked is guessed from
its two pointers being different, and the guess is wrong in a list of two: there the
second task is linked in again and ends up pointing at itself.  In longer lists the
task is moved behind the tasks of no larger priority; one of lower priority than the
head is moved before the head, and the list is then read from its former successor.
-/

import Cyancore.Helios.ReadyList

namespace Cyancore.Helios

open Cyancore.Math

variable {state : SchedState} {queue : List Addr} {node : Addr}

/-! ## The order after the move -/

/-- The order of the list after `_helios_sched_send_back_of_task_prio` has moved one of its
tasks. -/
def requeue (priority : Addr → ℕ) (node : Addr) : List Addr → List Addr
  | [] => []
  | head :: rest =>
      if head = node then head :: rest
      else if priority head ≤ priority node then
        insertByKey priority node ((head :: rest).erase node)
      else
        let front := (head :: rest).takeWhile (· ≠ node)
        let back := ((head :: rest).dropWhile (· ≠ node)).tail
        if back = [] then front ++ [node] else back ++ node :: front

theorem takeWhile_ne_of_notMem {front back : List Addr} (hfront : node ∉ front) :
    (front ++ node :: back).takeWhile (· ≠ node) = front ∧
      (front ++ node :: back).dropWhile (· ≠ node) = node :: back := by
  have hall : ∀ other ∈ front, decide (other ≠ node) = true := by
    intro other hother
    simpa using fun h : other = node => hfront (h ▸ hother)
  constructor
  · rw [List.takeWhile_append_of_pos hall, List.takeWhile_cons_of_neg (by simp), List.append_nil]
  · rw [List.dropWhile_append_of_pos hall, List.dropWhile_cons_of_neg (by simp)]

/-- A task of lower priority than the head goes before it. -/
theorem requeue_of_lt {priority : Addr → ℕ} {head : Addr} {front back : List Addr}
    (hfront : node ∉ head :: front) (hlt : priority node < priority head) :
    requeue priority node (head :: front ++ node :: back) =
      if back = [] then head :: front ++ [node] else back ++ node :: (head :: front) := by
  obtain ⟨htake, hdrop⟩ := @takeWhile_ne_of_notMem node (head :: front) back hfront
  have hne : head ≠ node := fun h => hfront (by simp [h])
  rw [List.cons_append] at htake hdrop ⊢
  rw [requeue, if_neg hne, if_neg (not_le.mpr hlt), htake, hdrop]
  rfl

/-- Any other task goes behind the tasks of no larger priority. -/
theorem requeue_of_le {priority : Addr → ℕ} {head : Addr} {rest : List Addr} (hne : head ≠ node)
    (hle : priority head ≤ priority node) :
    requeue priority node (head :: rest) =
      insertByKey priority node ((head :: rest).erase node) := by
  rw [requeue, if_neg hne, if_pos hle]

/-- Moving a task changes no more than the order. -/
theorem requeue_perm (priority : Addr → ℕ) (hmem : node ∈ queue) :
    (requeue priority node queue).Perm queue := by
  cases queue with
  | nil => exact .refl _
  | cons head rest =>
      by_cases hhead : head = node
      · rw [requeue, if_pos hhead]
      by_cases hle : priority head ≤ priority node
      · rw [requeue_of_le hhead hle]
        exact (insertByKey_perm priority node _).trans (List.perm_cons_erase hmem).symm
      · obtain ⟨front, back, hsplit, hfront⟩ := List.eq_append_cons_of_mem hmem
        cases front with
        | nil => exact absurd (List.cons.inj hsplit).1 hhead
        | cons head' front =>
            obtain ⟨rfl, -⟩ := List.cons.inj hsplit
            rw [hsplit, requeue_of_lt hfront (not_le.mp hle)]
            split
            · next hback => rw [hback]
            · exact List.perm_middle.trans ((List.perm_append_comm.cons node).trans
                List.perm_middle.symm)

/-! ## The move -/

/-- Detaching a task from the ready list; a head is replaced by its successor. -/
theorem nodeDetach_ready {pred succ : Addr} (hpred : state.prev .ready node = some pred)
    (hsucc : state.next .ready node = some succ) :
    heliosSchedNodeDetach (some node) .ready state =
      .done (.success, state.putList .ready ((state.links .ready).detach node pred succ)
        (if some node = state.readyListHead then some succ else state.readyListHead)) := by
  rw [heliosSchedNodeDetach_of_some hpred hsucc, hsucc]
  rfl

/-- Moving a linked task: what the search finds, and what linking in after the detachment
leaves. -/
theorem sendBack_of_linked {fuel : ℕ} {ref : Option Addr} {least : Bool} {pred succ : Addr}
    {final : SchedState} (hnone : state.readyListHead ≠ none)
    (hother : some node ≠ state.readyListHead)
    (hlinked : state.next .ready node ≠ state.prev .ready node)
    (hpred : state.prev .ready node = some pred) (hsucc : state.next .ready node = some succ)
    (hloop : loop (prioTurn state node) fuel (state.readyListHead, true) = .done (ref, least))
    (hinsert : ∃ result : Status × Option Addr, heliosSchedInsertBefore ref (some node) .ready
        (state.putList .ready ((state.links .ready).detach node pred succ)
          (if least then some succ else state.readyListHead)) = .done (result.1, result.2, final)) :
    heliosSchedSendBackOfTaskPrio fuel (some node) state = .done (.success, final) := by
  obtain ⟨result, hinsert⟩ := hinsert
  cases least with
  | false =>
      have hdetach := nodeDetach_ready hpred hsucc
      rw [if_neg hother] at hdetach
      simp only [Bool.false_eq_true, if_false] at hinsert
      simp only [heliosSchedSendBackOfTaskPrio, if_neg hnone, if_neg hother, hloop,
        Outcome.done_bind, Bool.false_eq_true, if_false, if_neg hlinked, hdetach, hinsert,
        Outcome.pure_eq]
  | true =>
      have hdetach := @nodeDetach_ready (state.putList .ready (state.links .ready) (some node)) node
        pred succ hpred hsucc
      simp only [SchedState.readyListHead_putList_ready, if_true, SchedState.links_putList_self,
        SchedState.putList_putList] at hdetach hinsert
      have hmoved : ({ state with readyListHead := some node } : SchedState) =
          state.putList .ready (state.links .ready) (some node) := rfl
      simp only [heliosSchedSendBackOfTaskPrio, if_neg hnone, if_neg hother, hloop,
        Outcome.done_bind, if_true, hmoved, SchedState.next_putList_self,
        SchedState.prev_putList_self, SchedState.links_next, SchedState.links_prev,
        if_neg hlinked, hdetach, hinsert, Outcome.pure_eq]

/-- Unlinking a member of the ready list erases it. -/
theorem SchedState.ListIs.detach_ready {pred succ head : Addr} (hlist : state.ListIs .ready queue)
    (hmem : node ∈ queue) (hpred : state.prev .ready node = some pred)
    (hsucc : state.next .ready node = some succ) (hhead : (queue.erase node).head? = some head) :
    (state.putList .ready ((state.links .ready).detach node pred succ) (some head)).ListIs .ready
      (queue.erase node) :=
  ⟨by simpa using hlist.ring.detach_erase hmem hpred hsucc, by simpa using hhead.symm⟩

/-- In a list of three or more, a task whose priority is not below that of the head is moved
behind the tasks of no larger priority. -/
theorem returns_sendBack_of_le {head : Addr} {rest : List Addr}
    (hlist : state.ListIs .ready (head :: rest)) (hmem : node ∈ rest)
    (hlength : 2 < (head :: rest).length) (hle : state.priority head ≤ state.priority node) :
    ∃ links : Links Addr,
      links.Ring (insertByKey state.priority node ((head :: rest).erase node)) ∧
      (insertByKey state.priority node ((head :: rest).erase node)).head? = some head ∧
      Returns (fun fuel => heliosSchedSendBackOfTaskPrio fuel (some node) state)
        (.success, state.putList .ready links (some head)) := by
  have hnodup := hlist.ring.nodup
  have hhead : state.readyListHead = some head := hlist.head
  have hne : head ≠ node := fun h => (List.nodup_cons.mp hnodup).1 (h ▸ hmem)
  have hmem' : node ∈ head :: rest := List.mem_cons_of_mem head hmem
  obtain ⟨pred, -, hpred⟩ := hlist.ring.exists_prev hmem'
  obtain ⟨succ, -, hsucc⟩ := hlist.ring.exists_next hmem'
  have herased : ((head :: rest).erase node).head? = some head := by
    rw [List.erase_cons_tail (by simpa using hne), List.head?_cons]
  have hdetached := hlist.detach_ready hmem' hpred.2 hsucc.1 herased
  have hfresh : node ∉ (head :: rest).erase node := List.Nodup.not_mem_erase hnodup
  obtain ⟨front, back, hsplit, hfront, hback, herase, hplace, hstable⟩ :=
    exists_split_erase state.priority node hnodup
  obtain ⟨front, rfl⟩ : ∃ front', front = head :: front' := by
    cases front with
    | nil =>
        have hlt := hback head (by rw [← List.nil_append back, ← hsplit]; rfl)
        exact absurd hle (not_le.mpr hlt)
    | cons other front => exact ⟨front, by rw [(List.cons.inj hsplit).1]⟩
  have hfirst : (insertByKey state.priority node ((head :: rest).erase node)).head? =
      some head := by
    rw [hstable, List.erase_cons_tail (by simpa using hne)]
    rfl
  rw [herase] at hdetached hfresh herased
  obtain ⟨links, hring, ref, hinsert⟩ := insertBefore_place hdetached
    (fun h => by simp [h] at herased) hfresh (some head)
  obtain ⟨fuel, hloop⟩ := @returns_prioLoop _ _ _ _ true
    (hsplit ▸ hlist.readyWalk (by simp)) hfront hback
  refine ⟨links, by rwa [hstable], hfirst, fuel, ?_⟩
  rw [hplace] at hinsert
  rw [← hsplit, List.head?_cons, ← hhead] at hloop
  refine sendBack_of_linked (by simp [hhead]) (by simpa [hhead] using hne.symm)
    (hlist.ring.next_ne_prev hmem' hlength) hpred.2 hsucc.1 hloop ⟨(.success, ref), ?_⟩
  simpa [hhead] using hinsert

/-- In a list of three or more, a task of lower priority than the head is moved before it. -/
theorem returns_sendBack_of_lt {head : Addr} {front back : List Addr}
    (hlist : state.ListIs .ready (head :: front ++ node :: back))
    (hlength : 2 < (head :: front ++ node :: back).length)
    (hlt : state.priority node < state.priority head) :
    ∃ links : Links Addr,
      links.Ring (if back = [] then head :: front ++ [node] else back ++ node :: (head :: front)) ∧
      Returns (fun fuel => heliosSchedSendBackOfTaskPrio fuel (some node) state)
        (.success, state.putList .ready links (back ++ [head]).head?) := by
  have hnodup := hlist.ring.nodup
  have hhead : state.readyListHead = some head := hlist.head
  have hmem : node ∈ head :: front ++ node :: back := by simp
  have hfront : node ∉ head :: front := fun h =>
    List.disjoint_of_nodup_append hnodup h List.mem_cons_self
  have hne : node ≠ head := fun h => hfront (by simp [h])
  obtain ⟨pred, -, hpred⟩ := hlist.ring.exists_prev hmem
  have hsucc : ∃ succ, (back ++ [head]).head? = some succ ∧
      (state.links .ready).next node = some succ := by
    cases back with
    | nil => exact ⟨head, rfl, (hlist.ring.joined_last rfl).1⟩
    | cons succ back =>
        exact ⟨succ, rfl, (Links.Ring.joined_of_split (head :: front) back hlist.ring).1⟩
  obtain ⟨succ, hfirst, hsucc⟩ := hsucc
  have hring : ((state.links .ready).detach node pred succ).Ring (head :: (front ++ back)) :=
    hlist.ring.detach hpred.2 hsucc
  obtain ⟨pred', -, hpred'⟩ := hring.exists_prev List.mem_cons_self
  have hfresh : node ∉ head :: (front ++ back) := by
    have hmoved := List.nodup_middle.mp hnodup
    simpa using (List.nodup_cons.mp hmoved).1
  have hplaced :=
    @Links.Ring.insertBefore _ _ _ head pred' node [] (front ++ back) hring hfresh hpred'.2
  obtain ⟨fuel, hloop⟩ := @returns_prioLoop _ _ [] _ true (hlist.readyWalk (by simp))
    (by simp) (by simpa using hlt)
  have hinsert := @heliosSchedInsertBefore_of_some
    (state.putList .ready ((state.links .ready).detach node pred succ) (some succ)) .ready head
    pred' node hne (by simpa using hpred'.2)
  refine ⟨((state.links .ready).detach node pred succ).insertBefore head pred' node, ?_, fuel, ?_⟩
  · split
    · next hback =>
        subst hback
        simpa using Links.Ring.rotate [node] (head :: front) (by simpa using hplaced)
    · exact Links.Ring.rotate (node :: head :: front) back (by simpa using hplaced)
  · rw [hfirst]
    refine sendBack_of_linked (by simp [hhead]) (by simpa [hhead] using hne)
      (hlist.ring.next_ne_prev hmem hlength) hpred.2 hsucc (by simpa [hhead] using hloop)
      ⟨(.success, some head), ?_⟩
    simpa using hinsert

/-- A task that heads the list, or is on one of three or more, is moved to its place in the
order. -/
theorem returns_sendBack_of_mem (hlist : state.ListIs .ready queue) (hmem : node ∈ queue)
    (hlength : queue.head? = some node ∨ 2 < queue.length) :
    ∃ links : Links Addr, links.Ring (requeue state.priority node queue) ∧
      Returns (fun fuel => heliosSchedSendBackOfTaskPrio fuel (some node) state)
        (.success,
          state.putList .ready links (requeue state.priority node queue).head?) := by
  cases queue with
  | nil => simp at hmem
  | cons head rest =>
      have hhead : state.readyListHead = some head := hlist.head
      by_cases hfirst : head = node
      · subst hfirst
        refine ⟨state.links .ready, ?_, 0, ?_⟩
        · rw [requeue, if_pos rfl]
          exact hlist.ring
        · rw [requeue, if_pos rfl, List.head?_cons, ← hhead]
          simp [heliosSchedSendBackOfTaskPrio, hhead,
            show state.putList .ready (state.links .ready) (some head) = state by
              rw [← hhead]; exact state.putList_self .ready]
      have hlength : 2 < (head :: rest).length := by
        refine hlength.resolve_left fun h => hfirst ?_
        simpa using h
      have hrest : node ∈ rest := (List.mem_cons.mp hmem).resolve_left (Ne.symm hfirst)
      by_cases hle : state.priority head ≤ state.priority node
      · obtain ⟨links, hring, hhead', hreturns⟩ := returns_sendBack_of_le hlist hrest hlength hle
        rw [requeue_of_le hfirst hle, hhead']
        exact ⟨links, hring, hreturns⟩
      · obtain ⟨front, back, rfl⟩ := List.append_of_mem hrest
        have hlist' : state.ListIs .ready (head :: front ++ node :: back) := hlist
        obtain ⟨links, hring, hreturns⟩ := returns_sendBack_of_lt hlist' hlength (not_le.mp hle)
        have hfront : node ∉ head :: front := fun h =>
          List.disjoint_of_nodup_append hlist'.ring.nodup h List.mem_cons_self
        rw [← List.cons_append, requeue_of_lt hfront (not_le.mp hle)]
        refine ⟨links, hring, ?_⟩
        cases back with
        | nil => exact hreturns
        | cons succ back => exact hreturns

/-- In a list of two the second task is linked in before the first as if it were not there. -/
theorem returns_sendBack_of_pair {head : Addr} (hlist : state.ListIs .ready [head, node]) :
    ∃ first ∈ [head, node],
      Returns (fun fuel => heliosSchedSendBackOfTaskPrio fuel (some node) state)
        (.success, state.putList .ready ((state.links .ready).insertBefore head node node)
          (some first)) := by
  have hhead : state.readyListHead = some head := hlist.head
  have hne : node ≠ head := by
    rintro rfl
    simpa using hlist.ring.nodup
  have hthere : (state.links .ready).Joined head node := Links.Ring.joined_of_split [] [] hlist.ring
  have hback : (state.links .ready).Joined node head :=
    @Links.Ring.joined_last _ _ [head] node head hlist.ring rfl
  have hsame : state.next .ready node = state.prev .ready node := hback.1.trans hthere.2.symm
  have hinsert : ∀ first, heliosSchedInsertBefore (some head) (some node) .ready
      (state.putList .ready (state.links .ready) first) = .done (.success, some head,
        state.putList .ready ((state.links .ready).insertBefore head node node) first) := by
    intro first
    simpa using @heliosSchedInsertBefore_of_some
      (state.putList .ready (state.links .ready) first) .ready head node node hne hback.2
  have hwalk := hlist.readyWalk (by simp)
  by_cases hle : state.priority head ≤ state.priority node
  · obtain ⟨fuel, hloop⟩ := @returns_prioLoop _ node [head, node] [] true hwalk
      (by simp [hle]) (by simp)
    refine ⟨head, by simp, fuel, ?_⟩
    have hkeep : state.putList .ready (state.links .ready) (some head) = state := by
      rw [← hhead]
      exact state.putList_self .ready
    have hinsert' := hinsert (some head)
    rw [hkeep] at hinsert'
    simp only [List.append_nil, List.head?_cons, List.head?_nil, Option.none_or, hhead] at hloop
    simp [heliosSchedSendBackOfTaskPrio, hhead, hne, hloop, hsame, hinsert']
  · obtain ⟨fuel, hloop⟩ := @returns_prioLoop _ node [] [head, node] true hwalk
      (by simp) (by simpa using hle)
    refine ⟨node, by simp, fuel, ?_⟩
    have hmoved : ({ state with readyListHead := some node } : SchedState) =
        state.putList .ready (state.links .ready) (some node) := rfl
    simp only [List.nil_append, List.head?_cons, Option.some_or] at hloop
    simp [heliosSchedSendBackOfTaskPrio, hhead, hne, hloop, hmoved, hsame, hinsert]

/-- In the order of a list of two the second task stays the second. -/
theorem getLast?_requeue_pair (priority : Addr → ℕ) {head : Addr} (hne : head ≠ node) :
    (requeue priority node [head, node]).getLast? = some node := by
  by_cases hle : priority head ≤ priority node
  · rw [requeue_of_le hne hle]
    simp [hne, insertByKey, not_lt.mpr hle]
  · have hfront : node ∉ [head] := by simpa using hne.symm
    rw [show [head, node] = [head] ++ node :: [] from rfl, requeue_of_lt hfront (not_le.mp hle)]
    rfl

/-- In a list of two whose second task has been linked in once more all pointers lead to that
task. -/
theorem pair_insertBefore {head : Addr} (hlist : state.ListIs .ready [head, node]) :
    ∀ task ∈ [head, node],
      ((state.links .ready).insertBefore head node node).next task = some node ∧
        ((state.links .ready).insertBefore head node node).prev task = some node := by
  have hne : head ≠ node := by
    rintro rfl
    simpa using hlist.ring.nodup
  have hthere : state.next .ready head = some node :=
    (Links.Ring.joined_of_split [] [] hlist.ring).1
  intro task htask
  rcases List.mem_pair.mp htask with rfl | rfl
  · simpa [Links.insertBefore, hne] using hthere
  · simp [Links.insertBefore, hne.symm]

/-- However short the list: the call returns, and in what it leaves every task has a
successor on the list, and the last task of the new order comes before the head. -/
theorem exists_sendBack (hlist : state.ListIs .ready queue) (hmem : node ∈ queue) :
    ∃ (links : Links Addr) (head last : Addr),
      Returns (fun fuel => heliosSchedSendBackOfTaskPrio fuel (some node) state)
        (.success, state.putList .ready links (some head)) ∧
      (requeue state.priority node queue).getLast? = some last ∧ last ∈ queue ∧
      links.prev head = some last ∧
      ∀ task ∈ queue, ∃ succ ∈ queue, links.next task = some succ := by
  have hperm := requeue_perm state.priority hmem
  by_cases hlength : queue.head? = some node ∨ 2 < queue.length
  · obtain ⟨links, hring, hreturns⟩ := returns_sendBack_of_mem hlist hmem hlength
    have hnil : requeue state.priority node queue ≠ [] := fun h => by
      rw [h] at hperm
      rw [List.nil_perm.mp hperm] at hmem
      simp at hmem
    obtain ⟨head, hhead⟩ : ∃ head, (requeue state.priority node queue).head? = some head :=
      ⟨_, List.head?_eq_some_head hnil⟩
    obtain ⟨init, last, hlast⟩ := (List.eq_nil_or_concat' _).resolve_left hnil
    rw [hhead] at hreturns
    refine ⟨links, head, last, hreturns, by simp [hlast], ?_, ?_, fun task htask => ?_⟩
    · exact hperm.mem_iff.mp (by simp [hlast])
    · rw [hlast] at hring hhead
      exact (hring.joined_last hhead).2
    · obtain ⟨succ, hsucc, hjoined⟩ := hring.exists_next (hperm.mem_iff.mpr htask)
      exact ⟨succ, hperm.mem_iff.mp hsucc, hjoined.1⟩
  · obtain ⟨head, hne, rfl⟩ : ∃ head, head ≠ node ∧ queue = [head, node] := by
      match queue, hmem with
      | [other], hmem =>
          obtain rfl := List.mem_singleton.mp hmem
          exact absurd (.inl rfl) hlength
      | [head, other], hmem =>
          have hne : head ≠ node := fun h => hlength (.inl (by simp [h]))
          obtain rfl : node = other := by simpa [hne.symm] using hmem
          exact ⟨head, hne, rfl⟩
      | _ :: _ :: _ :: _, _ => simp at hlength
    obtain ⟨first, hfirst, hreturns⟩ := returns_sendBack_of_pair hlist
    refine ⟨_, first, node, hreturns, getLast?_requeue_pair _ hne, by simp, ?_,
      fun task htask => ?_⟩
    · exact (pair_insertBefore hlist first hfirst).2
    · exact ⟨node, by simp, (pair_insertBefore hlist task htask).1⟩

/-! ## When the move keeps the list -/

/-- The task is behind all tasks of no larger priority, and before the others. -/
def LastOfPriority (priority : Addr → ℕ) (node : Addr) (queue : List Addr) : Prop :=
  ∃ front back, queue = front ++ node :: back ∧
    (∀ task ∈ front, priority task ≤ priority node) ∧ ∀ task ∈ back, priority node < priority task

/-- The call returns and leaves a sorted list of the same tasks with the same head, in which the
task is the last one of its priority and the others keep their order. -/
def MovesBack (queue : List Addr) (node : Addr) (state : SchedState) : Prop :=
  ∃ state' queue', Returns (fun fuel => heliosSchedSendBackOfTaskPrio fuel (some node) state)
      (.success, state') ∧
    state'.priority = state.priority ∧ state'.ListIs .ready queue' ∧
    queue'.head? = queue.head? ∧ queue'.Perm queue ∧ KeySorted state.priority queue' ∧
    LastOfPriority state.priority node queue' ∧ queue'.erase node = queue.erase node

/-- A new entry of a sorted queue becomes the last one of its priority. -/
theorem lastOfPriority_insertByKey {priority : Addr → ℕ} (hsorted : KeySorted priority queue) :
    LastOfPriority priority node (insertByKey priority node queue) := by
  obtain ⟨front, back, rfl, hfront, hback⟩ := hsorted.exists_split node
  refine ⟨front, back, ?_, hfront, hback⟩
  exact insertByKey_eq_append priority node hfront fun task htask =>
    hback task (List.mem_of_mem_head? htask)

/-- Taking the new entry out again restores the queue. -/
theorem erase_insertByKey {priority : Addr → ℕ} (hfresh : node ∉ queue) :
    (insertByKey priority node queue).erase node = queue := by
  obtain ⟨front, back, rfl, hfront, hback⟩ := exists_split_key priority node queue
  have hnode : node ∉ front := fun h => hfresh (List.mem_append_left back h)
  rw [insertByKey_eq_append priority node hfront hback, List.erase_append_right _ hnode,
    List.erase_cons_head]

/-- A list of three or more is kept. -/
theorem movesBack_of_length {head : Addr} {rest : List Addr}
    (hlist : state.ListIs .ready (head :: rest)) (hsorted : KeySorted state.priority (head :: rest))
    (hmem : node ∈ rest) (hlength : 2 < (head :: rest).length) :
    MovesBack (head :: rest) node state := by
  have hle : state.priority head ≤ state.priority node :=
    (List.pairwise_cons.mp hsorted).1 node hmem
  obtain ⟨links, hring, hhead, hreturns⟩ := returns_sendBack_of_le hlist hmem hlength hle
  have hfresh : node ∉ (head :: rest).erase node := List.Nodup.not_mem_erase hlist.ring.nodup
  have hrest : KeySorted state.priority ((head :: rest).erase node) :=
    List.Pairwise.sublist List.erase_sublist hsorted
  refine ⟨_, _, hreturns, SchedState.priority_putList _ _ _ _, ⟨?_, ?_⟩, hhead, ?_,
    hrest.insertByKey node, lastOfPriority_insertByKey hrest, erase_insertByKey hfresh⟩
  · simpa using hring
  · simpa using hhead.symm
  · have hmem' : node ∈ head :: rest := List.mem_cons_of_mem head hmem
    exact (insertByKey_perm _ node _).trans (List.perm_cons_erase hmem').symm

/-- A list of two is broken. -/
theorem not_movesBack_pair {head : Addr} (hlist : state.ListIs .ready [head, node]) :
    ¬ MovesBack [head, node] node state := by
  rintro ⟨state', queue', hreturns, -, hlist', hhead, hperm, -⟩
  obtain ⟨first, -, hreturns'⟩ := returns_sendBack_of_pair hlist
  obtain ⟨-, rfl⟩ := Prod.mk.inj (hreturns.unique (fuelMono_sendBackOfTaskPrio _ _) hreturns')
  have hpair : queue' = [head, node] := by
    obtain ⟨rest, rfl⟩ := List.head?_eq_some_iff.mp hhead
    rw [List.perm_singleton.mp ((List.perm_cons head).mp hperm)]
  subst hpair
  have hjoined := (@Links.Ring.joined_last _ _ [head] node head hlist'.ring rfl).1
  have hself := (pair_insertBefore hlist node (by simp)).1
  have hnodup := hlist.ring.nodup
  rw [SchedState.links_putList_self, hself, Option.some.injEq] at hjoined
  simp [hjoined] at hnodup

/-- On a sorted list, sending a task other than the head to the back of its priority keeps the
list exactly if the list does not consist of two tasks. -/
theorem movesBack_iff (hlist : state.ListIs .ready queue)
    (hsorted : KeySorted state.priority queue) (hmem : node ∈ queue)
    (hother : queue.head? ≠ some node) : MovesBack queue node state ↔ queue.length ≠ 2 := by
  match queue with
  | [] => simp at hmem
  | [head] => simp_all
  | [head, second] =>
      have hne : node ≠ head := fun h => hother (by simp [h])
      obtain rfl : node = second := by simpa [hne] using hmem
      exact iff_of_false (not_movesBack_pair hlist) (by simp)
  | head :: second :: third :: rest =>
      have hne : node ≠ head := fun h => hother (by simp [h])
      have hrest : node ∈ second :: third :: rest := (List.mem_cons.mp hmem).resolve_left hne
      exact iff_of_true (movesBack_of_length hlist hsorted hrest (by simp)) (by simp)

/-- Three ready tasks of one priority. -/
def readyTriple : SchedState :=
  { bootState (fun addr =>
      if addr = 1 then { Tcb.zero with readyLink := ⟨some 3, some 2⟩, taskStatus := .ready }
      else if addr = 2 then { Tcb.zero with readyLink := ⟨some 1, some 3⟩, taskStatus := .ready }
      else if addr = 3 then { Tcb.zero with readyLink := ⟨some 2, some 1⟩, taskStatus := .ready }
      else Tcb.zero) (fun _ => 0) [] with
    readyListHead := some 1
    currTask := some 2
    preSched := true }

theorem readyTriple_listIs : readyTriple.ListIs .ready [1, 2, 3] := by
  refine ⟨⟨by decide, ?_⟩, rfl⟩
  exact .cons_cons ⟨rfl, rfl⟩ (.cons_cons ⟨rfl, rfl⟩ (.cons_cons ⟨rfl, rfl⟩ (.singleton 1)))

theorem keySorted_readyTriple : KeySorted readyTriple.priority [1, 2, 3] := by
  simp [KeySorted, SchedState.priority, readyTriple, bootState, Tcb.zero]

theorem movesBack_readyTriple : MovesBack [1, 2, 3] 2 readyTriple :=
  (movesBack_iff readyTriple_listIs keySorted_readyTriple (by decide) (by decide)).mpr (by decide)

/-- The second of two tasks ends up pointing at itself. -/
theorem not_movesBack_readyPair :
    readyPair.ListIs .ready [1, 2] ∧ KeySorted readyPair.priority [1, 2] ∧ 2 ∈ [1, 2] ∧
      [1, 2].head? ≠ some 2 ∧ ¬ MovesBack [1, 2] 2 readyPair := by
  refine ⟨readyPair_listIs, ?_, by decide, by decide, not_movesBack_pair readyPair_listIs⟩
  simp [KeySorted, SchedState.priority, readyPair, bootState, Tcb.zero]

end Cyancore.Helios
