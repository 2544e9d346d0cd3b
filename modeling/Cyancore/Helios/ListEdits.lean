/-
# Linking tasks in and detaching them

The two insertions and the detachment, on a list of any length and for either link type.
The insertions put the new task right before or right behind the reference.  A detachment
leaves the other members in their order, and moves the head along the *ready* link of the
task: on the wait list this is the right move only where both lists agree, and a ready list
of one task keeps a head that points at the detached task.
-/

import Cyancore.Helios.ReadyList

namespace Cyancore.Helios

open Cyancore.Math

/-- An operation on one list leaves the pointers and the head of the other alone. -/
theorem SchedState.putList_of_ne (state : SchedState) {linkType other : LinkType}
    (hne : other ≠ linkType) (ring : Links Addr) (head : Option Addr) :
    (state.putList linkType ring head).links other = state.links other ∧
      (state.putList linkType ring head).listHead other = state.listHead other := by
  cases linkType with
  | wait =>
      cases other with
      | wait => exact absurd rfl hne
      | ready => exact ⟨rfl, rfl⟩
  | ready =>
      cases other with
      | wait => exact ⟨rfl, rfl⟩
      | ready => exact absurd rfl hne

/-! ## Linking a task in -/

/-- The side of the reference a task is linked in at. -/
inductive Side
  | before
  | after
  deriving DecidableEq, Repr

/-- `_helios_sched_insert_before` or `_helios_sched_insert_after`. -/
def Side.insert : Side → Option Addr → Option Addr → LinkType → SchedState →
    Run (Status × Option Addr × SchedState)
  | .before => heliosSchedInsertBefore
  | .after => heliosSchedInsertAfter

/-- The reference and the new task next to each other. -/
def Side.pair (ref node : Addr) : Side → List Addr
  | .before => [node, ref]
  | .after => [ref, node]

/-- The reference is a member of the list, or null for the empty list. -/
def RefersTo (ref : Option Addr) (nodes : List Addr) : Prop :=
  match ref with
  | none => nodes = []
  | some ref => ref ∈ nodes

/-- What linking a task in at the reference leaves of the state. -/
structure LinkedIn (side : Side) (linkType : LinkType) (nodes : List Addr) (ref : Option Addr)
    (node : Addr) (state state' : SchedState) : Prop where
  /-- The empty list becomes the list of the new task. -/
  alone : ref = none → (state'.links linkType).Ring [node]
  /-- The new task is next to the reference, the others are where they were. -/
  ring : ∀ front ref' back, ref = some ref' → nodes = front ++ ref' :: back →
    (state'.links linkType).Ring (front ++ side.pair ref' node ++ back)
  /-- Nothing but the pointers of the list is written. -/
  frame : state' = state.putList linkType (state'.links linkType) (state.listHead linkType)
  /-- The links of the other type are as they were. -/
  other : ∀ other, other ≠ linkType → state'.links other = state.links other

section LinkIn

variable {linkType : LinkType} {nodes : List Addr} {ref : Option Addr} {node : Addr}
  {state : SchedState}

/-- Rewritten pointers are all that an operation on a list leaves to be shown. -/
theorem linkedIn_putList {side : Side} {links : Links Addr}
    (halone : ref = none → links.Ring [node])
    (hring : ∀ front ref' back, ref = some ref' → nodes = front ++ ref' :: back →
      links.Ring (front ++ side.pair ref' node ++ back)) :
    LinkedIn side linkType nodes ref node state
      (state.putList linkType links (state.listHead linkType)) where
  alone := by simpa using halone
  ring := by simpa using hring
  frame := by rw [SchedState.links_putList_self]
  other _ hne := (state.putList_of_ne hne _ _).1

theorem insert_of_none (side : Side) :
    side.insert none (some node) linkType state =
      .done (.success, some node, state.putList linkType ((state.links linkType).alone node)
        (state.listHead linkType)) := by
  cases side with
  | before => exact heliosSchedInsertBefore_of_none node
  | after => exact heliosSchedInsertAfter_of_none node

/-- Linking in next to a member of a ring. -/
theorem exists_insert_of_mem (side : Side) {ref : Addr} (hring : (state.links linkType).Ring nodes)
    (href : ref ∈ nodes) (hfresh : node ∉ nodes) :
    ∃ state', side.insert (some ref) (some node) linkType state =
        .done (.success, some ref, state') ∧
      LinkedIn side linkType nodes (some ref) node state state' := by
  cases side with
  | before =>
      obtain ⟨pred, -, -, hpred⟩ := hring.exists_prev href
      have hne : node ≠ ref := fun h => hfresh (h ▸ href)
      refine ⟨_, heliosSchedInsertBefore_of_some hne hpred, linkedIn_putList ?_ ?_⟩
      · exact fun hnone => absurd hnone (Option.some_ne_none ref)
      · intro front ref' back href' hsplit
        cases href'
        subst hsplit
        simpa [Side.pair] using hring.insertBefore hfresh hpred
  | after =>
      obtain ⟨succ, -, hsucc, -⟩ := hring.exists_next href
      refine ⟨_, heliosSchedInsertAfter_of_some hsucc, linkedIn_putList ?_ ?_⟩
      · exact fun hnone => absurd hnone (Option.some_ne_none ref)
      · intro front ref' back href' hsplit
        cases href'
        subst hsplit
        simpa [Side.pair] using hring.insertAfter hfresh hsucc

end LinkIn

/-- Either insertion links a task in next to the reference, for either link type; the
reference changes only where the list was empty. -/
theorem exists_linkedIn (side : Side) (linkType : LinkType) (nodes : List Addr)
    (ref : Option Addr) (node : Addr) (state : SchedState)
    (hring : (state.links linkType).Ring nodes) (href : RefersTo ref nodes)
    (hfresh : node ∉ nodes) :
    ∃ ref' state', side.insert ref (some node) linkType state = .done (.success, ref', state') ∧
      ref' = (if nodes = [] then some node else ref) ∧
      LinkedIn side linkType nodes ref node state state' := by
  cases ref with
  | none =>
      have hempty : nodes = [] := href
      refine ⟨_, _, insert_of_none side, (if_pos hempty).symm, linkedIn_putList ?_ ?_⟩
      · exact fun _ => Links.ring_alone _ node
      · exact fun _ ref' _ hsome => absurd hsome.symm (Option.some_ne_none ref')
  | some ref =>
      have hnonempty : nodes ≠ [] := List.ne_nil_of_mem href
      obtain ⟨state', hrun, hlinked⟩ := exists_insert_of_mem side hring href hfresh
      exact ⟨_, state', hrun, (if_neg hnonempty).symm, hlinked⟩

theorem linkedIn_readyPair :
    ∃ ref' state', Side.insert .after (some 1) (some 3) .ready readyPair =
        .done (.success, ref', state') ∧
      ref' = (if [1, 2] = [] then some 3 else some 1) ∧
      LinkedIn .after .ready [1, 2] (some 1) 3 readyPair state' :=
  exists_linkedIn .after .ready [1, 2] (some 1) 3 readyPair readyPair_listIs.ring
    List.mem_cons_self (by decide)

/-! ## Detaching a task -/

/-- What detaching a member leaves of the state. -/
structure Detached (linkType : LinkType) (nodes : List Addr) (node : Addr)
    (state state' : SchedState) : Prop where
  /-- The other members are in their order, and the head is the first of them. -/
  list : state'.ListIs linkType (nodes.erase node)
  /-- The other list is as it was. -/
  links : ∀ other, other ≠ linkType → state'.links other = state.links other
  head : ∀ other, other ≠ linkType → state'.listHead other = state.listHead other

/-- The detachment succeeds and leaves the list of the other members. -/
def Detaches (linkType : LinkType) (nodes : List Addr) (node : Addr) (state : SchedState) :
    Prop :=
  ∃ state', heliosSchedNodeDetach (some node) linkType state = .done (.success, state') ∧
    Detached linkType nodes node state state'

/-- The head moves to where it should: no lone task of the ready list, and no head of the wait
list whose ready link goes elsewhere than its wait link. -/
def HeadMovesOn (nodes : List Addr) (node : Addr) (state : SchedState) : LinkType → Prop
  | .ready => nodes ≠ [node]
  | .wait => nodes.head? = some node → state.next .ready node = (nodes.erase node).head?

section Detach

variable {linkType : LinkType} {nodes : List Addr} {node : Addr} {state : SchedState}

/-- The head that the detachment of a task writes. -/
def movedHead (state : SchedState) (linkType : LinkType) (node : Addr) : Option Addr :=
  if some node = state.listHead linkType then state.next .ready node
  else state.listHead linkType

/-- The pointers are right in every case, and all depends on the head. -/
theorem detaches_iff_movedHead (hlist : state.ListIs linkType nodes) (hmem : node ∈ nodes) :
    Detaches linkType nodes node state ↔
      movedHead state linkType node = (nodes.erase node).head? := by
  obtain ⟨pred, -, -, hpred⟩ := hlist.ring.exists_prev hmem
  obtain ⟨succ, -, hsucc, -⟩ := hlist.ring.exists_next hmem
  have hrun := heliosSchedNodeDetach_of_some hpred hsucc
  constructor
  · rintro ⟨state', hrun', hdetached⟩
    obtain ⟨-, rfl⟩ := Prod.mk.inj (Outcome.done.inj (hrun'.symm.trans hrun))
    have hhead := hdetached.list.head
    rwa [SchedState.listHead_putList_self] at hhead
  · intro hhead
    refine ⟨_, hrun, ⟨?_, ?_⟩, ?_, ?_⟩
    · simpa using hlist.ring.detach_erase hmem hpred hsucc
    · rwa [SchedState.listHead_putList_self]
    · exact fun _ hne => (state.putList_of_ne hne _ _).1
    · exact fun _ hne => (state.putList_of_ne hne _ _).2

/-- The successor of the first member, which is the member itself if it is alone. -/
theorem next_of_ring_cons {links : Links Addr} {rest : List Addr}
    (hring : links.Ring (node :: rest)) : links.next node = some (rest.headD node) := by
  cases rest with
  | nil => exact (@Links.Ring.joined_last _ _ [] node node hring rfl).1
  | cons succ rest => exact (Links.Ring.joined_of_split [] rest hring).1

theorem movedHead_eq_iff (hlist : state.ListIs linkType nodes) (hmem : node ∈ nodes) :
    movedHead state linkType node = (nodes.erase node).head? ↔
      HeadMovesOn nodes node state linkType := by
  cases nodes with
  | nil => exact absurd hmem List.not_mem_nil
  | cons head rest =>
      have hhead : state.listHead linkType = some head := hlist.head
      by_cases hfirst : head = node
      · subst hfirst
        rw [movedHead, if_pos hhead.symm, List.erase_cons_head]
        cases linkType with
        | ready =>
            have hnext : state.next .ready head = _ := next_of_ring_cons hlist.ring
            rw [hnext, HeadMovesOn]
            cases rest with
            | nil => exact iff_of_false (Option.some_ne_none _) (not_not.mpr rfl)
            | cons succ rest => exact iff_of_true rfl (by simp)
        | wait =>
            rw [HeadMovesOn, List.head?_cons, List.erase_cons_head]
            exact ⟨fun h _ => h, fun h => h rfl⟩
      · have hother : some node ≠ state.listHead linkType := by
          rw [hhead]
          exact fun h => hfirst (Option.some.inj h).symm
        rw [movedHead, if_neg hother, hhead, List.erase_cons_tail (by simpa using hfirst)]
        cases linkType with
        | ready => exact iff_of_true rfl fun h => hfirst (List.cons.inj h).1
        | wait => exact iff_of_true rfl fun h => absurd (Option.some.inj h) hfirst

end Detach

/-- A detachment leaves the list of the other members, unless it is of a lone task of the ready
list or of a head of the wait list that the ready list goes on from elsewhere. -/
theorem detaches_iff (linkType : LinkType) (nodes : List Addr) (node : Addr) (state : SchedState)
    (hlist : state.ListIs linkType nodes) (hmem : node ∈ nodes) :
    Detaches linkType nodes node state ↔ HeadMovesOn nodes node state linkType :=
  (detaches_iff_movedHead hlist hmem).trans (movedHead_eq_iff hlist hmem)

/-- The first of two ready tasks leaves the second. -/
theorem detaches_readyPair : Detaches .ready [1, 2] 1 readyPair := by
  have hmoves : HeadMovesOn [1, 2] 1 readyPair .ready := by
    rw [HeadMovesOn]
    decide
  exact (detaches_iff .ready [1, 2] 1 readyPair readyPair_listIs (by decide)).mpr hmoves

/-- Two tasks on the ready list, of which the first is alone on the wait list. -/
def firstWaiting : SchedState :=
  readyPair.putList .wait ((readyPair.links .wait).alone 1) (some 1)

theorem firstWaiting_listIs : firstWaiting.ListIs .wait [1] :=
  ⟨Links.ring_alone _ 1, rfl⟩

/-- The wait list is left with the second task for its head, which does not wait. -/
theorem not_detaches_firstWaiting :
    firstWaiting.ListIs .wait [1] ∧ 1 ∈ [1] ∧ ¬ Detaches .wait [1] 1 firstWaiting := by
  refine ⟨firstWaiting_listIs, by decide, fun hdetaches => ?_⟩
  have hmoved := (detaches_iff_movedHead firstWaiting_listIs (by decide)).mp hdetaches
  exact absurd hmoved (by decide)

end Cyancore.Helios
