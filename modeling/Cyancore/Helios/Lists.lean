/-
# The scheduler's lists as rings

Both lists of the scheduler are read through one view: the `Links` that a state
gives its control blocks for a link type.  Every list operation of the source
is a replacement of those pointers and of the list's head, and leaves the rest
of the state alone; `SchedState.putList` is that replacement.  The lemmas below
say which replacement each operation performs on a list in good order.
-/

import Cyancore.Helios.Tasks
import Cyancore.Math.Ring

namespace Cyancore.Helios

open Cyancore.Math

namespace SchedState

variable (state : SchedState)

/-- The pointers of one list. -/
def links (linkType : LinkType) : Links Addr where
  next := state.next linkType
  prev := state.prev linkType

/-- The head pointer of one list. -/
def listHead : LinkType → Option Addr
  | .wait => state.waitListHead
  | .ready => state.readyListHead

/-- Replace the pointers and the head of one list. -/
def putList (linkType : LinkType) (links : Links Addr) (head : Option Addr) : SchedState :=
  let tcb := fun addr => (state.tcb addr).setLink linkType ⟨links.prev addr, links.next addr⟩
  match linkType with
  | .wait => { state with tcb := tcb, waitListHead := head }
  | .ready => { state with tcb := tcb, readyListHead := head }

/-- `addr->wait_res.task_delay_ticks`. -/
def delay (addr : Addr) : ℕ := (state.tcb addr).waitRes.taskDelayTicks

/-- `addr->wait_res.wait_on_resource`. -/
def awaited (addr : Addr) : ℕ := (state.tcb addr).waitRes.waitOnResource

/-- `addr->priority`. -/
def priority (addr : Addr) : ℕ := (state.tcb addr).priority

/-- The list of this type holds the listed tasks, in this order. -/
structure ListIs (linkType : LinkType) (nodes : List Addr) : Prop where
  ring : (state.links linkType).Ring nodes
  head : state.listHead linkType = nodes.head?

end SchedState

@[simp]
theorem Tcb.setLink_link_self (task : Tcb) (linkType : LinkType) :
    task.setLink linkType (task.link linkType) = task := by
  cases linkType <;> rfl

/-! ## Reading a rewritten state -/

namespace SchedState

variable (state : SchedState) (linkType : LinkType) (ring : Links Addr) (head : Option Addr)
  (addr : Addr)

@[simp]
theorem links_next : (state.links linkType).next = state.next linkType := rfl

@[simp]
theorem links_prev : (state.links linkType).prev = state.prev linkType := rfl

@[simp]
theorem links_putList_self : (state.putList linkType ring head).links linkType = ring := by
  cases linkType <;> rfl

@[simp]
theorem listHead_putList_self :
    (state.putList linkType ring head).listHead linkType = head := by
  cases linkType <;> rfl

@[simp]
theorem next_putList_self : (state.putList linkType ring head).next linkType = ring.next := by
  cases linkType <;> rfl

@[simp]
theorem prev_putList_self : (state.putList linkType ring head).prev linkType = ring.prev := by
  cases linkType <;> rfl

@[simp]
theorem links_ready_putList_wait :
    (state.putList .wait ring head).links .ready = state.links .ready := rfl

@[simp]
theorem links_wait_putList_ready :
    (state.putList .ready ring head).links .wait = state.links .wait := rfl

@[simp]
theorem prev_wait_putList_ready :
    (state.putList .ready ring head).prev .wait = state.prev .wait := rfl

@[simp]
theorem readyListHead_putList_wait :
    (state.putList .wait ring head).readyListHead = state.readyListHead := rfl

@[simp]
theorem waitListHead_putList_wait : (state.putList .wait ring head).waitListHead = head := rfl

@[simp]
theorem waitListHead_putList_ready :
    (state.putList .ready ring head).waitListHead = state.waitListHead := rfl

@[simp]
theorem readyListHead_putList_ready : (state.putList .ready ring head).readyListHead = head := rfl

@[simp]
theorem currTask_putList : (state.putList linkType ring head).currTask = state.currTask := by
  cases linkType <;> rfl

@[simp]
theorem status_putList : (state.putList linkType ring head).status = state.status := by
  cases linkType <;> rfl

@[simp]
theorem delay_putList : (state.putList linkType ring head).delay = state.delay := by
  cases linkType <;> rfl

@[simp]
theorem awaited_putList : (state.putList linkType ring head).awaited = state.awaited := by
  cases linkType <;> rfl

@[simp]
theorem priority_putList : (state.putList linkType ring head).priority = state.priority := by
  cases linkType <;> rfl

@[simp]
theorem putList_putList (ring' : Links Addr) (head' : Option Addr) :
    (state.putList linkType ring head).putList linkType ring' head' =
      state.putList linkType ring' head' := by
  cases linkType <;> rfl

/-- A list put back as it was changes nothing. -/
@[simp]
theorem putList_self :
    state.putList linkType (state.links linkType) (state.listHead linkType) = state := by
  cases linkType <;> rfl

section Modify

variable (change : Tcb → Tcb)

theorem tcb_modify (addr' : Addr) :
    (state.modify addr change).tcb addr' =
      if addr' = addr then change (state.tcb addr) else state.tcb addr' := by
  simp only [modify, Function.update_apply]

/-- What a rewrite keeps in a block, it keeps in the state. -/
theorem read_modify {β : Type} (read : Tcb → β) (hkeep : ∀ task, read (change task) = read task)
    (addr' : Addr) : read ((state.modify addr change).tcb addr') = read (state.tcb addr') := by
  rw [tcb_modify]
  split
  · next h => rw [hkeep, h]
  · rfl

/-- What a rewrite sets in a block, it sets at that address only. -/
theorem read_modify_update {β : Type} (read : Tcb → β) {value : β}
    (hset : ∀ task, read (change task) = value) (addr' : Addr) :
    read ((state.modify addr change).tcb addr') =
      Function.update (fun addr => read (state.tcb addr)) addr value addr' := by
  rw [tcb_modify, Function.update_apply]
  split
  · rw [hset]
  · rfl

/-- A rewrite that keeps the pointers of a block keeps the list. -/
theorem links_modify (hkeep : ∀ task, (change task).link linkType = task.link linkType) :
    (state.modify addr change).links linkType = state.links linkType := by
  have hlink := read_modify state addr change (fun task => task.link linkType) hkeep
  have hnext : (state.modify addr change).next linkType = state.next linkType :=
    funext fun addr' => congrArg Link.next (hlink addr')
  have hprev : (state.modify addr change).prev linkType = state.prev linkType :=
    funext fun addr' => congrArg Link.prev (hlink addr')
  simp only [links, hnext, hprev]

end Modify

variable (value : TaskStatus) (ticks resource : ℕ)

@[simp]
theorem links_setStatus : (state.setStatus addr value).links linkType = state.links linkType :=
  links_modify _ _ _ _ fun _ => by cases linkType <;> rfl

@[simp]
theorem links_setDelay : (state.setDelay addr ticks).links linkType = state.links linkType :=
  links_modify _ _ _ _ fun _ => by cases linkType <;> rfl

@[simp]
theorem links_setResource :
    (state.setResource addr resource).links linkType = state.links linkType :=
  links_modify _ _ _ _ fun _ => by cases linkType <;> rfl

@[simp]
theorem next_setStatus : (state.setStatus addr value).next linkType = state.next linkType :=
  congrArg Links.next (links_setStatus state linkType addr value)

@[simp]
theorem prev_setStatus : (state.setStatus addr value).prev linkType = state.prev linkType :=
  congrArg Links.prev (links_setStatus state linkType addr value)

@[simp]
theorem next_setDelay : (state.setDelay addr ticks).next linkType = state.next linkType :=
  congrArg Links.next (links_setDelay state linkType addr ticks)

@[simp]
theorem prev_setDelay : (state.setDelay addr ticks).prev linkType = state.prev linkType :=
  congrArg Links.prev (links_setDelay state linkType addr ticks)

@[simp]
theorem listHead_modify (change : Tcb → Tcb) :
    (state.modify addr change).listHead linkType = state.listHead linkType := by
  cases linkType <;> rfl

@[simp]
theorem listHead_setStatus :
    (state.setStatus addr value).listHead linkType = state.listHead linkType :=
  listHead_modify _ _ _ _

@[simp]
theorem listHead_setDelay :
    (state.setDelay addr ticks).listHead linkType = state.listHead linkType :=
  listHead_modify _ _ _ _

@[simp]
theorem status_setStatus :
    (state.setStatus addr value).status = Function.update state.status addr value :=
  funext <| read_modify_update _ _ _ Tcb.taskStatus fun _ => rfl

@[simp]
theorem status_setDelay : (state.setDelay addr ticks).status = state.status :=
  funext <| read_modify _ _ _ Tcb.taskStatus fun _ => rfl

@[simp]
theorem status_setResource : (state.setResource addr resource).status = state.status :=
  funext <| read_modify _ _ _ Tcb.taskStatus fun _ => rfl

@[simp]
theorem delay_setDelay :
    (state.setDelay addr ticks).delay = Function.update state.delay addr ticks :=
  funext <| read_modify_update _ _ _ (fun task => task.waitRes.taskDelayTicks) fun _ => rfl

@[simp]
theorem delay_setStatus : (state.setStatus addr value).delay = state.delay :=
  funext <| read_modify _ _ _ (fun task => task.waitRes.taskDelayTicks) fun _ => rfl

@[simp]
theorem delay_setResource : (state.setResource addr resource).delay = state.delay :=
  funext <| read_modify _ _ _ (fun task => task.waitRes.taskDelayTicks) fun _ => rfl

@[simp]
theorem awaited_setDelay : (state.setDelay addr ticks).awaited = state.awaited :=
  funext <| read_modify _ _ _ (fun task => task.waitRes.waitOnResource) fun _ => rfl

@[simp]
theorem awaited_setStatus : (state.setStatus addr value).awaited = state.awaited :=
  funext <| read_modify _ _ _ (fun task => task.waitRes.waitOnResource) fun _ => rfl

@[simp]
theorem awaited_setResource :
    (state.setResource addr resource).awaited = Function.update state.awaited addr resource :=
  funext <| read_modify_update _ _ _ (fun task => task.waitRes.waitOnResource) fun _ => rfl

@[simp]
theorem priority_setStatus : (state.setStatus addr value).priority = state.priority :=
  funext <| read_modify _ _ _ Tcb.priority fun _ => rfl

end SchedState

/-! ## What the list operations do -/

section Operations

variable {state : SchedState} {linkType : LinkType}

/-- A store to the pointers of one task, as a replacement of the list. -/
theorem SchedState.setLink_eq_putList (addr : Addr) (link : Link → Link) :
    state.modify addr (fun task => task.setLink linkType (link (task.link linkType))) =
      state.putList linkType
        ⟨Function.update (state.next linkType) addr (link ((state.tcb addr).link linkType)).next,
          Function.update (state.prev linkType) addr (link ((state.tcb addr).link linkType)).prev⟩
        (state.listHead linkType) := by
  have hblock : ∀ addr', (state.modify addr fun task =>
        task.setLink linkType (link (task.link linkType))).tcb addr' =
      (state.tcb addr').setLink linkType
        ⟨Function.update (state.prev linkType) addr
            (link ((state.tcb addr).link linkType)).prev addr',
          Function.update (state.next linkType) addr
            (link ((state.tcb addr).link linkType)).next addr'⟩ := by
    intro addr'
    rw [tcb_modify, Function.update_apply, Function.update_apply]
    by_cases h : addr' = addr
    · rw [if_pos h, if_pos h, if_pos h, h]
    · rw [if_neg h, if_neg h, if_neg h]
      exact ((state.tcb addr').setLink_link_self linkType).symm
  cases linkType
  · exact congrArg (fun tcb => { state with tcb := tcb }) (funext hblock)
  · exact congrArg (fun tcb => { state with tcb := tcb }) (funext hblock)

/-- A store to a `next` field. -/
theorem SchedState.setNext_eq_putList (addr : Addr) (value : Option Addr) :
    state.setNext linkType addr value = state.putList linkType
      ⟨Function.update (state.next linkType) addr value, state.prev linkType⟩
      (state.listHead linkType) := by
  refine (setLink_eq_putList addr fun link => { link with next := value }).trans ?_
  congr 2
  exact Function.update_eq_self addr (state.prev linkType)

/-- A store to a `prev` field. -/
theorem SchedState.setPrev_eq_putList (addr : Addr) (value : Option Addr) :
    state.setPrev linkType addr value = state.putList linkType
      ⟨state.next linkType, Function.update (state.prev linkType) addr value⟩
      (state.listHead linkType) := by
  refine (setLink_eq_putList addr fun link => { link with prev := value }).trans ?_
  congr 2
  exact Function.update_eq_self addr (state.next linkType)

@[simp]
theorem deref_some (addr : Addr) : deref (some addr) = .done addr := rfl

theorem eq_of_deref {ptr : Option Addr} {addr : Addr} (hrun : deref ptr = .done addr) :
    ptr = some addr := by
  cases ptr with
  | none => simp [deref] at hrun
  | some other => rw [Outcome.done.inj hrun]

/-- Linking a task into an empty list makes it point at itself. -/
theorem heliosSchedInsertBefore_of_none (node : Addr) :
    heliosSchedInsertBefore none (some node) linkType state =
      .done (.success, some node, state.putList linkType ((state.links linkType).alone node)
        (state.listHead linkType)) := by
  simp [heliosSchedInsertBefore, SchedState.setNext_eq_putList, SchedState.setPrev_eq_putList,
    Links.alone]

/-- Linking a task in before a member writes the ring insertion. -/
theorem heliosSchedInsertBefore_of_some {ref pred node : Addr} (hne : node ≠ ref)
    (hpred : state.prev linkType ref = some pred) :
    heliosSchedInsertBefore (some ref) (some node) linkType state =
      .done (.success, some ref, state.putList linkType
        ((state.links linkType).insertBefore ref pred node) (state.listHead linkType)) := by
  simp [heliosSchedInsertBefore, SchedState.setNext_eq_putList, SchedState.setPrev_eq_putList,
    hpred, hne, Links.insertBefore]

/-- Linking a task in before itself makes it point at itself. -/
theorem heliosSchedInsertBefore_self (node : Addr) :
    heliosSchedInsertBefore (some node) (some node) linkType state =
      .done (.success, some node, state.putList linkType ((state.links linkType).alone node)
        (state.listHead linkType)) := by
  simp [heliosSchedInsertBefore, SchedState.setNext_eq_putList, SchedState.setPrev_eq_putList,
    Links.alone]

/-- Linking a task in behind nothing makes it point at itself. -/
theorem heliosSchedInsertAfter_of_none (node : Addr) :
    heliosSchedInsertAfter none (some node) linkType state =
      .done (.success, some node, state.putList linkType ((state.links linkType).alone node)
        (state.listHead linkType)) := by
  simp [heliosSchedInsertAfter, SchedState.setNext_eq_putList, SchedState.setPrev_eq_putList,
    Links.alone]

/-- Linking a task in behind a member writes the insertion before the member's successor. -/
theorem heliosSchedInsertAfter_of_some {ref succ node : Addr}
    (hsucc : state.next linkType ref = some succ) :
    heliosSchedInsertAfter (some ref) (some node) linkType state =
      .done (.success, some ref, state.putList linkType
        ((state.links linkType).insertBefore succ ref node) (state.listHead linkType)) := by
  simp [heliosSchedInsertAfter, SchedState.setNext_eq_putList, SchedState.setPrev_eq_putList,
    hsucc, Links.insertBefore]

/-- Unlinking a task writes the ring detachment. -/
theorem unlink_of_some {node pred succ : Addr} (hpred : state.prev linkType node = some pred)
    (hsucc : state.next linkType node = some succ) :
    unlink linkType node state = .done (state.putList linkType
      ((state.links linkType).detach node pred succ) (state.listHead linkType)) := by
  have hkeep : Function.update (state.next linkType) pred (some succ) node = some succ := by
    rw [Function.update_apply]
    split
    · rfl
    · exact hsucc
  simp [unlink, SchedState.setNext_eq_putList, SchedState.setPrev_eq_putList, hpred, hsucc,
    hkeep, Links.detach]

/-- Unlinking goes by the pointers and leaves the head as it was moved before. -/
theorem unlink_of_moved {node pred succ : Addr} (head : Option Addr)
    (hpred : state.prev linkType node = some pred) (hsucc : state.next linkType node = some succ) :
    unlink linkType node (state.putList linkType (state.links linkType) head) =
      .done (state.putList linkType ((state.links linkType).detach node pred succ) head) := by
  simpa using @unlink_of_some (state.putList linkType (state.links linkType) head) linkType node
    pred succ (by simpa using hpred) (by simpa using hsucc)

/-- Detaching a task unlinks it; a head is replaced by what its *ready* link says. -/
theorem heliosSchedNodeDetach_of_some {node pred succ : Addr}
    (hpred : state.prev linkType node = some pred) (hsucc : state.next linkType node = some succ) :
    heliosSchedNodeDetach (some node) linkType state =
      .done (.success, state.putList linkType ((state.links linkType).detach node pred succ)
        (if some node = state.listHead linkType then state.next .ready node
          else state.listHead linkType)) := by
  cases linkType with
  | wait =>
      have hmoved : (if some node = state.waitListHead then
          { state with waitListHead := state.next .ready node } else state) =
          state.putList .wait (state.links .wait)
            (if some node = state.waitListHead then state.next .ready node
              else state.waitListHead) := by
        split
        · rfl
        · rfl
      simp only [heliosSchedNodeDetach, hmoved, unlink_of_moved _ hpred hsucc,
        Outcome.done_bind, Outcome.pure_eq]
      rfl
  | ready =>
      have hmoved : (if some node = state.readyListHead then
          { state with readyListHead := state.next .ready node } else state) =
          state.putList .ready (state.links .ready)
            (if some node = state.readyListHead then state.next .ready node
              else state.readyListHead) := by
        split
        · rfl
        · rfl
      simp only [heliosSchedNodeDetach, hmoved, unlink_of_moved _ hpred hsucc,
        Outcome.done_bind, Outcome.pure_eq]
      rfl

end Operations

end Cyancore.Helios
