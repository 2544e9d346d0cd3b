/-
# The list of clock callbacks

What the two list operations do to a list that ends, and what that makes of any sequence
of them.  Registering a node walks to the end and looks for the node on the way, from
the second node on: the root itself is never compared, so it is hung behind the last node
once more.  And a node is hung there as it is, with whatever its own pointer holds.  The
list stays a list exactly when neither happens.
-/

import Cyancore.Driver.Sysclk
import Cyancore.Math.SinglyLinked
import Cyancore.Math.Transition
import Mathlib.Data.Set.Basic

namespace Cyancore.Sysclk

open Cyancore.Math

variable {ω : Type} {state state' : SysclkState ω} {node : Addr} {nodes : List Addr}

/-- The list from `root` holds these nodes, in this order, and ends. -/
def SysclkState.ListIs (state : SysclkState ω) (nodes : List Addr) : Prop :=
  Linked state.next state.root nodes none

/-- The node has both of its callbacks. -/
def SysclkState.HasCallbacks (state : SysclkState ω) (node : Addr) : Prop :=
  ∀ phase, ((state.mem node).callback phase).isSome

/-! ## Registering a node -/

section Register

variable {temp : Addr} {rest : List Addr}

/-- A node behind the first is met on the way. -/
theorem returns_registerWalk_of_mem (hlinked : Linked state.next (state.next temp) rest none)
    (hmem : node ∈ rest) :
    Returns (fun fuel => loop (registerTurn node state) fuel temp)
      (StatusCode.errorListNodeExists, state) := by
  induction rest generalizing temp with
  | nil => cases hmem
  | cons succ rest ih =>
      obtain ⟨hsucc, hrest⟩ := hlinked
      by_cases heq : succ = node
      · have hturn : registerTurn node state temp =
            .done (.exit (StatusCode.errorListNodeExists, state)) := by
          simp [registerTurn, hsucc, heq]
        exact (returns_loop_of_exit hturn).mpr rfl
      · have hturn : registerTurn node state temp = .done (.next succ) := by
          simp [registerTurn, hsucc, heq]
        apply (returns_loop_of_next hturn).mpr
        apply ih hrest
        exact (List.mem_cons.mp hmem).resolve_left (Ne.symm heq)

/-- A node that is not behind the first is hung behind the last. -/
theorem returns_registerWalk_of_not_mem (hlinked : Linked state.next (state.next temp) rest none)
    (hmem : node ∉ rest) :
    Returns (fun fuel => loop (registerTurn node state) fuel temp)
      (StatusCode.success, state.setNext ((temp :: rest).getLast (by simp)) (some node)) := by
  induction rest generalizing temp with
  | nil =>
      have hturn : registerTurn node state temp =
          .done (.exit (StatusCode.success, state.setNext temp (some node))) := by
        simp [registerTurn, linked_nil.mp hlinked]
      exact (returns_loop_of_exit hturn).mpr rfl
  | cons succ rest ih =>
      obtain ⟨hsucc, hrest⟩ := hlinked
      have hne : succ ≠ node := fun heq => hmem (by simp [heq])
      have hturn : registerTurn node state temp = .done (.next succ) := by
        simp [registerTurn, hsucc, hne]
      apply (returns_loop_of_next hturn).mpr
      rw [List.getLast_cons_cons]
      exact ih hrest fun h => hmem (by simp [h])

variable (hcallbacks : state.HasCallbacks node)

include hcallbacks

theorem register_eq_of_root {root : Addr} (hroot : state.root = some root) (fuel : ℕ) :
    sysclkRegisterConfigClkCallback fuel node state =
      loop (registerTurn node state) fuel root := by
  have hpre : (state.mem node).preConfig.isSome := hcallbacks .preConfig
  have hpost : (state.mem node).postConfig.isSome := hcallbacks .postConfig
  simp [sysclkRegisterConfigClkCallback, hroot, hpre, hpost]

/-- On the empty list the node becomes the root. -/
theorem returns_register_nil (hlist : state.ListIs []) :
    Returns (fun fuel => sysclkRegisterConfigClkCallback fuel node state)
      (StatusCode.success, state.setRoot (some node)) := by
  have hroot : state.root = none := hlist
  have hpre : (state.mem node).preConfig.isSome := hcallbacks .preConfig
  have hpost : (state.mem node).postConfig.isSome := hcallbacks .postConfig
  exact ⟨0, by simp [sysclkRegisterConfigClkCallback, hroot, hpre, hpost]⟩

theorem returns_register_of_mem {root : Addr} (hlist : state.ListIs (root :: nodes))
    (hmem : node ∈ nodes) :
    Returns (fun fuel => sysclkRegisterConfigClkCallback fuel node state)
      (StatusCode.errorListNodeExists, state) := by
  simp only [register_eq_of_root hcallbacks hlist.1]
  exact returns_registerWalk_of_mem hlist.2 hmem

theorem returns_register_of_not_mem {root : Addr} (hlist : state.ListIs (root :: nodes))
    (hmem : node ∉ nodes) :
    Returns (fun fuel => sysclkRegisterConfigClkCallback fuel node state)
      (StatusCode.success,
        state.setNext ((root :: nodes).getLast (by simp)) (some node)) := by
  simp only [register_eq_of_root hcallbacks hlist.1]
  exact returns_registerWalk_of_not_mem hlist.2 hmem

end Register

theorem fuelMono_register (node : Addr) (state : SysclkState ω) :
    FuelMono fun fuel => sysclkRegisterConfigClkCallback fuel node state := by
  unfold sysclkRegisterConfigClkCallback
  split
  · exact fuelMono_const _
  · split
    · exact fuelMono_const _
    · exact fuelMono_loop _ _

/-! ## Removing a node -/

section Deregister

variable {temp before : Addr} {first second : List Addr} {prev : Option Addr}

/-- The search stops at the node and goes round it. -/
theorem returns_deregisterWalk_of_mem
    (hlinked : Linked state.next (some temp) (first ++ before :: node :: second) none)
    (hmem : node ∉ first ++ [before]) :
    Returns (fun fuel => loop (deregisterTurn node state) fuel (prev, temp))
      (StatusCode.success, state.setNext before (state.next node)) := by
  induction first generalizing temp prev with
  | nil =>
      obtain ⟨hhead, hnext, -⟩ := hlinked
      cases hhead
      have hne : before ≠ node := fun heq => hmem (by simp [heq])
      have hturn : deregisterTurn node state (prev, before) =
          .done (.next (some before, node)) := by
        simp [deregisterTurn, hne, hnext]
      have hfound : deregisterTurn node state (some before, node) =
          .done (.exit (StatusCode.success, state.setNext before (state.next node))) := by
        simp [deregisterTurn]
      apply (returns_loop_of_next hturn).mpr
      exact (returns_loop_of_exit hfound).mpr rfl
  | cons head first ih =>
      obtain ⟨hhead, hrest⟩ := hlinked
      cases hhead
      have hne : head ≠ node := fun heq => hmem (by simp [heq])
      obtain ⟨succ, hsucc⟩ : ∃ succ, state.next head = some succ := by
        cases first with
        | nil => exact ⟨before, hrest.1⟩
        | cons succ first => exact ⟨succ, hrest.1⟩
      have hturn : deregisterTurn node state (prev, head) = .done (.next (some head, succ)) := by
        simp [deregisterTurn, hne, hsucc]
      apply (returns_loop_of_next hturn).mpr
      apply ih (hsucc ▸ hrest)
      exact fun h => hmem (by simp_all)

/-- The search for a node that is not there ends with the list. -/
theorem returns_deregisterWalk_of_not_mem {rest : List Addr}
    (hlinked : Linked state.next (some temp) (temp :: rest) none) (hmem : node ∉ temp :: rest) :
    Returns (fun fuel => loop (deregisterTurn node state) fuel (prev, temp))
      (StatusCode.errorListNodeNotFound, state) := by
  induction rest generalizing temp prev with
  | nil =>
      have hne : temp ≠ node := fun heq => hmem (by simp [heq])
      have hturn : deregisterTurn node state (prev, temp) =
          .done (.exit (StatusCode.errorListNodeNotFound, state)) := by
        simp [deregisterTurn, hne, linked_nil.mp hlinked.2]
      exact (returns_loop_of_exit hturn).mpr rfl
  | cons succ rest ih =>
      have hne : temp ≠ node := fun heq => hmem (by simp [heq])
      have hsucc : state.next temp = some succ := hlinked.2.1
      have hturn : deregisterTurn node state (prev, temp) = .done (.next (some temp, succ)) := by
        simp [deregisterTurn, hne, hsucc]
      apply (returns_loop_of_next hturn).mpr
      apply ih (hsucc ▸ hlinked.2)
      exact fun h => hmem (List.mem_cons_of_mem temp h)

theorem deregister_eq_of_root {root : Addr} (hroot : state.root = some root) (hne : root ≠ node)
    (fuel : ℕ) :
    sysclkDeregisterConfigClkCallback fuel node state =
      loop (deregisterTurn node state) fuel (none, root) := by
  simp [sysclkDeregisterConfigClkCallback, hroot, hne]

/-- The first node is removed by moving the root. -/
theorem returns_deregister_root (hlist : state.ListIs (node :: nodes)) :
    Returns (fun fuel => sysclkDeregisterConfigClkCallback fuel node state)
      (StatusCode.success, state.setRoot (state.next node)) :=
  ⟨0, by simp [sysclkDeregisterConfigClkCallback, hlist.1]⟩

theorem returns_deregister_of_mem (hlist : state.ListIs (first ++ before :: node :: second)) :
    Returns (fun fuel => sysclkDeregisterConfigClkCallback fuel node state)
      (StatusCode.success, state.setNext before (state.next node)) := by
  have hmem : node ∉ first ++ [before] := by
    have hnodup : ((first ++ [before]) ++ node :: second).Nodup := by simpa using hlist.nodup
    exact fun h => List.disjoint_of_nodup_append hnodup h (by simp)
  obtain ⟨root, hroot, hne⟩ : ∃ root, state.root = some root ∧ root ≠ node := by
    cases first with
    | nil => exact ⟨before, hlist.1, fun heq => hmem (by simp [heq])⟩
    | cons root first => exact ⟨root, hlist.1, fun heq => hmem (by simp [heq])⟩
  simp only [deregister_eq_of_root hroot hne]
  rw [SysclkState.ListIs, hroot] at hlist
  exact returns_deregisterWalk_of_mem hlist hmem

/-- A node that is not on the list is an error and nothing changes. -/
theorem returns_deregister_of_not_mem (hlist : state.ListIs nodes) (hmem : node ∉ nodes) :
    ∃ error, error ≠ StatusCode.success ∧
      Returns (fun fuel => sysclkDeregisterConfigClkCallback fuel node state) (error, state) := by
  cases nodes with
  | nil =>
      have hroot : state.root = none := hlist
      refine ⟨StatusCode.errorFuncInvalArg, by decide, 0, ?_⟩
      simp [sysclkDeregisterConfigClkCallback, hroot]
  | cons root rest =>
      have hne : root ≠ node := fun heq => hmem (by simp [heq])
      refine ⟨StatusCode.errorListNodeNotFound, by decide, ?_⟩
      simp only [deregister_eq_of_root hlist.1 hne]
      exact returns_deregisterWalk_of_not_mem ⟨rfl, hlist.2⟩ hmem

end Deregister

theorem fuelMono_deregister (node : Addr) (state : SysclkState ω) :
    FuelMono fun fuel => sysclkDeregisterConfigClkCallback fuel node state := by
  unfold sysclkDeregisterConfigClkCallback
  split
  · exact fuelMono_const _
  · split
    · exact fuelMono_const _
    · exact fuelMono_loop _ _

/-! ## The list after a call -/

theorem listIs_register_nil (hnull : state.next node = none) :
    (state.setRoot (some node)).ListIs [node] := by
  rw [SysclkState.ListIs, linked_cons, linked_nil]
  exact ⟨rfl, hnull⟩

theorem listIs_register {root : Addr} (hlist : state.ListIs (root :: nodes))
    (hfresh : node ∉ root :: nodes) (hnull : state.next node = none) :
    (state.setNext ((root :: nodes).getLast (by simp)) (some node)).ListIs
      (root :: nodes ++ [node]) := by
  have hsplit := List.dropLast_append_getLast (List.cons_ne_nil root nodes)
  generalize (root :: nodes).getLast (List.cons_ne_nil root nodes) = last at hsplit ⊢
  rw [← hsplit] at hlist hfresh ⊢
  rw [SysclkState.ListIs, SysclkState.next_setNext, SysclkState.root_setNext]
  exact hlist.append_last hfresh hnull

theorem listIs_deregister_root (hlist : state.ListIs (node :: nodes)) :
    (state.setRoot (state.next node)).ListIs nodes := hlist.2

theorem listIs_deregister {before : Addr} {first second : List Addr}
    (hlist : state.ListIs (first ++ before :: node :: second)) :
    (state.setNext before (state.next node)).ListIs (first ++ before :: second) := by
  rw [SysclkState.ListIs, SysclkState.next_setNext]
  exact hlist.unlink

/-- A listed node is removed, wherever it stands. -/
theorem exists_deregistered (hlist : state.ListIs nodes) (hmem : node ∈ nodes) :
    ∃ state', Returns (fun fuel => sysclkDeregisterConfigClkCallback fuel node state)
        (StatusCode.success, state') ∧
      state'.ListIs (nodes.erase node) := by
  obtain ⟨front, second, rfl, hfront⟩ := List.eq_append_cons_of_mem hmem
  rcases List.eq_nil_or_concat front with rfl | ⟨first, before, rfl⟩
  · refine ⟨_, returns_deregister_root hlist, ?_⟩
    simpa using listIs_deregister_root hlist
  · have hlist' : state.ListIs (first ++ before :: node :: second) := by simpa using hlist
    refine ⟨_, returns_deregister_of_mem hlist', ?_⟩
    rw [List.erase_append_right _ hfront, List.erase_cons_head]
    simpa using listIs_deregister hlist'

/-- `sysclk_deregister_config_clk_callback` returns on every list that ends.  It takes the node
and no other off the list, or answers with an error and changes nothing. -/
theorem deregister_erases (hlist : state.ListIs nodes) (node : Addr) :
    ∃ ret state', Returns (fun fuel => sysclkDeregisterConfigClkCallback fuel node state)
        (ret, state') ∧
      (node ∈ nodes → ret = StatusCode.success ∧ state'.ListIs (nodes.erase node)) ∧
      (node ∉ nodes → ret ≠ StatusCode.success ∧ state' = state) := by
  by_cases hmem : node ∈ nodes
  · obtain ⟨state', hreturns, hlist'⟩ := exists_deregistered hlist hmem
    exact ⟨_, state', hreturns, fun _ => ⟨rfl, hlist'⟩, absurd hmem⟩
  · obtain ⟨error, herror, hreturns⟩ := returns_deregister_of_not_mem hlist hmem
    exact ⟨error, state, hreturns, fun h => absurd h hmem, fun _ => ⟨herror, rfl⟩⟩

/-! ## Calls and the registry they are for -/

/-- The calls that change the list. -/
inductive ClkOp
  | register (node : Addr)
  | deregister (node : Addr)
  deriving DecidableEq, Repr

namespace ClkOp

/-- The node the call is about. -/
def target : ClkOp → Addr
  | .register node => node
  | .deregister node => node

def run (fuel : ℕ) : ClkOp → SysclkState ω → Run (StatusCode × SysclkState ω)
  | .register node => sysclkRegisterConfigClkCallback fuel node
  | .deregister node => sysclkDeregisterConfigClkCallback fuel node

/-- The nodes registered and not deregistered since, in the order of their registration. -/
def track : ClkOp → List Addr → List Addr
  | .register node, nodes => if node ∈ nodes then nodes else nodes ++ [node]
  | .deregister node, nodes => nodes.erase node

theorem fuelMono_run (op : ClkOp) (state : SysclkState ω) :
    FuelMono fun fuel => op.run fuel state := by
  cases op with
  | register node => exact fuelMono_register node state
  | deregister node => exact fuelMono_deregister node state

end ClkOp

/-- The list from the root ends, has no node twice, and is the registry. -/
structure Registry (sys : SysclkState ω × List Addr) : Prop where
  list : sys.1.ListIs sys.2
  nodup : sys.2.Nodup

theorem Registry.of_listIs (hlist : state.ListIs nodes) : Registry (state, nodes) :=
  ⟨hlist, hlist.nodup⟩

/-- The call returns, leaves the list as the registry, and turns down a node that is listed. -/
def ClkOp.Keeps (op : ClkOp) (sys : SysclkState ω × List Addr) : Prop :=
  ∃ ret state', Returns (fun fuel => op.run fuel sys.1) (ret, state') ∧
    Registry (state', op.track sys.2) ∧
    ∀ node, op = .register node → node ∈ sys.2 →
      ret = StatusCode.errorListNodeExists ∧ state' = sys.1

/-- A node is not registered while it is the root, and comes to the list with a null pointer. -/
def ClkOp.Fits : ClkOp → SysclkState ω × List Addr → Prop
  | .register node, (state, nodes) =>
      state.root ≠ some node ∧ (node ∉ nodes → state.next node = none)
  | .deregister _, _ => True

theorem keeps_register_nil (hlist : state.ListIs []) (hcallbacks : state.HasCallbacks node)
    (hnull : state.next node = none) : (ClkOp.register node).Keeps (state, []) := by
  refine ⟨_, _, returns_register_nil hcallbacks hlist, ?_, ?_⟩
  · apply Registry.of_listIs
    simpa [ClkOp.track] using listIs_register_nil hnull
  · intro other _ hmem
    cases hmem

theorem keeps_register_of_mem {root : Addr} (hlist : state.ListIs (root :: nodes))
    (hcallbacks : state.HasCallbacks node) (hmem : node ∈ nodes) :
    (ClkOp.register node).Keeps (state, root :: nodes) := by
  refine ⟨_, _, returns_register_of_mem hcallbacks hlist hmem, ?_, fun _ _ _ => ⟨rfl, rfl⟩⟩
  apply Registry.of_listIs
  simpa [ClkOp.track, hmem] using hlist

theorem keeps_register_of_not_mem {root : Addr} (hlist : state.ListIs (root :: nodes))
    (hcallbacks : state.HasCallbacks node) (hfresh : node ∉ root :: nodes)
    (hnull : state.next node = none) : (ClkOp.register node).Keeps (state, root :: nodes) := by
  have hbehind : node ∉ nodes := fun h => hfresh (List.mem_cons_of_mem root h)
  refine ⟨_, _, returns_register_of_not_mem hcallbacks hlist hbehind, ?_, ?_⟩
  · apply Registry.of_listIs
    rw [ClkOp.track, if_neg hfresh]
    exact listIs_register hlist hfresh hnull
  · intro other hop hmem
    cases hop
    exact absurd hmem hfresh

theorem keeps_deregister (hlist : state.ListIs nodes) (node : Addr) :
    (ClkOp.deregister node).Keeps (state, nodes) := by
  by_cases hmem : node ∈ nodes
  · obtain ⟨state', hreturns, hlist'⟩ := exists_deregistered hlist hmem
    exact ⟨_, state', hreturns, Registry.of_listIs hlist', by simp⟩
  · obtain ⟨error, -, hreturns⟩ := returns_deregister_of_not_mem hlist hmem
    refine ⟨_, _, hreturns, ?_, by simp⟩
    apply Registry.of_listIs
    rwa [ClkOp.track, List.erase_of_not_mem hmem]

theorem keeps_of_fits {op : ClkOp} (hlist : state.ListIs nodes)
    (hcallbacks : state.HasCallbacks op.target) (hfits : op.Fits (state, nodes)) :
    op.Keeps (state, nodes) := by
  cases op with
  | deregister node => exact keeps_deregister hlist node
  | register node =>
      obtain ⟨hroot, hnull⟩ := hfits
      cases nodes with
      | nil => exact keeps_register_nil hlist hcallbacks (hnull (by simp))
      | cons root rest =>
          by_cases hmem : node ∈ rest
          · exact keeps_register_of_mem hlist hcallbacks hmem
          · have hne : node ≠ root := fun heq => hroot (heq ▸ hlist.1)
            have hfresh : node ∉ root :: rest := by simp [hne, hmem]
            exact keeps_register_of_not_mem hlist hcallbacks hfresh (hnull hfresh)

/-! ## What goes wrong otherwise -/

/-- The root is not recognised: registering it again succeeds. -/
theorem root_ne_of_keeps (hlist : state.ListIs nodes) (hcallbacks : state.HasCallbacks node)
    (hkeeps : (ClkOp.register node).Keeps (state, nodes)) : state.root ≠ some node := by
  intro hroot
  cases nodes with
  | nil =>
      rw [SysclkState.ListIs, linked_nil, hroot] at hlist
      cases hlist
  | cons root rest =>
      have heq : root = node := Option.some.inj (hlist.1.symm.trans hroot)
      subst heq
      have hbehind : root ∉ rest := (List.nodup_cons.mp hlist.nodup).1
      obtain ⟨ret, state', hreturns, -, hrefuses⟩ := hkeeps
      have hsame := Returns.unique (fuelMono_register root state) hreturns
        (returns_register_of_not_mem hcallbacks hlist hbehind)
      have hret := (hrefuses root rfl (by simp)).1
      rw [(Prod.mk.inj hsame).1] at hret
      exact absurd hret (by decide)

/-- A new node stays as it is, and so does its pointer. -/
theorem next_eq_of_returns_register (hlist : state.ListIs nodes)
    (hcallbacks : state.HasCallbacks node) (hfresh : node ∉ nodes) {ret : StatusCode}
    (hreturns : Returns (fun fuel => sysclkRegisterConfigClkCallback fuel node state)
      (ret, state')) : state'.next node = state.next node := by
  cases nodes with
  | nil =>
      have hsame := Returns.unique (fuelMono_register node state) hreturns
        (returns_register_nil hcallbacks hlist)
      rw [(Prod.mk.inj hsame).2, SysclkState.next_setRoot]
  | cons root rest =>
      have hbehind : node ∉ rest := fun h => hfresh (List.mem_cons_of_mem root h)
      have hsame := Returns.unique (fuelMono_register node state) hreturns
        (returns_register_of_not_mem hcallbacks hlist hbehind)
      rw [(Prod.mk.inj hsame).2, SysclkState.next_setNext]
      apply Function.update_of_ne
      intro heq
      exact hfresh (heq ▸ List.getLast_mem _)

theorem next_eq_none_of_keeps (hlist : state.ListIs nodes) (hcallbacks : state.HasCallbacks node)
    (hkeeps : (ClkOp.register node).Keeps (state, nodes)) (hfresh : node ∉ nodes) :
    state.next node = none := by
  obtain ⟨ret, state', hreturns, hregistry, -⟩ := hkeeps
  have hlast := hregistry.list
  rw [ClkOp.track, if_neg hfresh] at hlast
  rw [← next_eq_of_returns_register hlist hcallbacks hfresh hreturns]
  exact hlast.next_last

theorem keeps_iff_fits {op : ClkOp} (hlist : state.ListIs nodes)
    (hcallbacks : state.HasCallbacks op.target) :
    op.Keeps (state, nodes) ↔ op.Fits (state, nodes) := by
  constructor
  · intro hkeeps
    cases op with
    | deregister node => trivial
    | register node =>
        exact ⟨root_ne_of_keeps hlist hcallbacks hkeeps,
          next_eq_none_of_keeps hlist hcallbacks hkeeps⟩
  · exact keeps_of_fits hlist hcallbacks

/-! ## Any sequence of calls -/

/-- Calls on the given nodes, which start with their callbacks, a null pointer and no list. -/
def clkSystem (ω : Type) (used : Set Addr) :
    TransitionSystem (SysclkState ω × List Addr) ClkOp where
  init sys := sys.1.root = none ∧ sys.2 = [] ∧
    ∀ node ∈ used, sys.1.HasCallbacks node ∧ sys.1.next node = none
  step op sys sys' := op.target ∈ used ∧
    (∃ ret, Returns (fun fuel => op.run fuel sys.1) (ret, sys'.1)) ∧ sys'.2 = op.track sys.2

/-- The callbacks of all nodes are those of `state`. -/
def SameCallbacks (state : SysclkState ω) (result : StatusCode × SysclkState ω) : Prop :=
  ∀ phase node, (result.2.mem node).callback phase = (state.mem node).callback phase

theorem sameCallbacks_register {fuel : ℕ} {result : StatusCode × SysclkState ω}
    (hresult : sysclkRegisterConfigClkCallback fuel node state = .done result) :
    SameCallbacks state result := by
  unfold sysclkRegisterConfigClkCallback at hresult
  split at hresult
  · cases hresult
    exact fun _ _ => rfl
  · split at hresult
    · cases hresult
      exact fun _ _ => rfl
    · obtain ⟨temp, hturn⟩ := exists_exit_of_loop hresult
      unfold registerTurn at hturn
      split at hturn
      · cases hturn
        exact SysclkState.callback_setNext temp (some node)
      · split at hturn
        · cases hturn
          exact fun _ _ => rfl
        · cases hturn

theorem sameCallbacks_deregister {fuel : ℕ} {result : StatusCode × SysclkState ω}
    (hresult : sysclkDeregisterConfigClkCallback fuel node state = .done result) :
    SameCallbacks state result := by
  unfold sysclkDeregisterConfigClkCallback at hresult
  split at hresult
  · cases hresult
    exact fun _ _ => rfl
  · split at hresult
    · cases hresult
      exact fun _ _ => rfl
    · obtain ⟨frame, hturn⟩ := exists_exit_of_loop hresult
      unfold deregisterTurn at hturn
      split at hturn
      split at hturn
      · split at hturn
        · cases hturn
        · cases hturn
          exact SysclkState.callback_setNext _ _
      · split at hturn
        · cases hturn
          exact fun _ _ => rfl
        · cases hturn

/-- Calls write the root and pointers only. -/
theorem ClkOp.sameCallbacks {op : ClkOp} {result : StatusCode × SysclkState ω}
    (hreturns : Returns (fun fuel => op.run fuel state) result) : SameCallbacks state result := by
  obtain ⟨fuel, hresult⟩ := hreturns
  cases op with
  | register node => exact sameCallbacks_register hresult
  | deregister node => exact sameCallbacks_deregister hresult

/-- The registry, and the callbacks that every node keeps. -/
structure RunInvariant (used : Set Addr) (sys : SysclkState ω × List Addr) : Prop where
  registry : Registry sys
  callbacks : ∀ node ∈ used, sys.1.HasCallbacks node

theorem RunInvariant.step {used : Set Addr} {op : ClkOp} {sys sys' : SysclkState ω × List Addr}
    (hinv : RunInvariant used sys) (hfits : op.Fits sys)
    (hstep : (clkSystem ω used).step op sys sys') : RunInvariant used sys' := by
  obtain ⟨hused, ⟨ret, hreturns⟩, htrack⟩ := hstep
  constructor
  · obtain ⟨ret', state', hreturns', hregistry, -⟩ :=
      keeps_of_fits hinv.registry.list (hinv.callbacks _ hused) hfits
    have hsame := Returns.unique (op.fuelMono_run sys.1) hreturns hreturns'
    have hsys : sys' = (state', op.track sys.2) := Prod.ext (Prod.mk.inj hsame).2 htrack
    exact hsys ▸ hregistry
  · intro node hnode phase
    rw [ClkOp.sameCallbacks hreturns phase node]
    exact hinv.callbacks node hnode phase

theorem runInvariant_of_reachable {used : Set Addr} {sys : SysclkState ω × List Addr}
    (hreach : (clkSystem ω used).Reachable ClkOp.Fits sys) : RunInvariant used sys := by
  apply hreach.invariant (RunInvariant used)
  · rintro sys ⟨hroot, hnodes, hused⟩
    refine ⟨⟨?_, by simp [hnodes]⟩, fun node hnode => (hused node hnode).1⟩
    rw [hnodes, SysclkState.ListIs, linked_nil, hroot]
  · exact fun _ _ _ hinv hfits hstep => hinv.step hfits hstep

/-- As long as no call registers the node at the root, or a new node whose pointer is not null,
the list is the registry, and a call keeps it so exactly when it is not of these two kinds. -/
theorem clk_registry_of_fits {used : Set Addr} {sys : SysclkState ω × List Addr}
    (hreach : (clkSystem ω used).Reachable ClkOp.Fits sys) :
    Registry sys ∧ ∀ op : ClkOp, op.target ∈ used → (op.Keeps sys ↔ op.Fits sys) := by
  have hinv := runInvariant_of_reachable hreach
  refine ⟨hinv.registry, ?_⟩
  intro op hused
  exact keeps_iff_fits hinv.registry.list (hinv.callbacks _ hused)

/-! ## Short runs -/

/-- Nodes whose callbacks succeed and whose pointers are null, and no list. -/
def emptyClk : SysclkState Unit where
  mem _ := ⟨some fun world => (StatusCode.success, world),
    some fun world => (StatusCode.success, world), none⟩
  root := none
  world := ()
  calls := []

/-- The second of two listed nodes is removed, and a third one is not found. -/
theorem deregister_erases_two :
    (∃ ret state', Returns (fun fuel => sysclkDeregisterConfigClkCallback fuel 1
          ((emptyClk.setRoot (some 0)).setNext 0 (some 1))) (ret, state') ∧
        ret = StatusCode.success ∧ state'.ListIs [0]) ∧
      ∃ ret state', Returns (fun fuel => sysclkDeregisterConfigClkCallback fuel 2
          ((emptyClk.setRoot (some 0)).setNext 0 (some 1))) (ret, state') ∧
        ret ≠ StatusCode.success ∧ state' = (emptyClk.setRoot (some 0)).setNext 0 (some 1) := by
  have hlist : ((emptyClk.setRoot (some 0)).setNext 0 (some 1)).ListIs [0, 1] := ⟨rfl, rfl, rfl⟩
  constructor
  · obtain ⟨ret, state', hreturns, hfound, -⟩ := deregister_erases hlist 1
    exact ⟨ret, state', hreturns, hfound (by decide)⟩
  · obtain ⟨ret, state', hreturns, -, habsent⟩ := deregister_erases hlist 2
    exact ⟨ret, state', hreturns, habsent (by decide)⟩

variable {guard : ClkOp → SysclkState Unit × List Addr → Prop}

theorem reachable_emptyClk (guard : ClkOp → SysclkState Unit × List Addr → Prop) :
    (clkSystem Unit Set.univ).Reachable guard (emptyClk, []) :=
  .start ⟨rfl, rfl, fun _ _ => ⟨fun phase => by cases phase <;> rfl, rfl⟩⟩

theorem reachable_call {state state' : SysclkState Unit} (op : ClkOp)
    (hreach : (clkSystem Unit Set.univ).Reachable guard (state, nodes))
    (hguard : guard op (state, nodes)) {ret : StatusCode}
    (hreturns : Returns (fun fuel => op.run fuel state) (ret, state')) :
    (clkSystem Unit Set.univ).Reachable guard (state', op.track nodes) :=
  hreach.step hguard ⟨trivial, ⟨ret, hreturns⟩, rfl⟩

/-- Two nodes are registered, the second of them once more, and the first is removed. -/
theorem clk_registry_of_fits_two :
    ∃ sys, (clkSystem Unit Set.univ).Reachable ClkOp.Fits sys ∧ sys.2 = [1] ∧
      Registry sys ∧ ∀ op : ClkOp, op.target ∈ Set.univ → (op.Keeps sys ↔ op.Fits sys) := by
  have hone := reachable_call (.register 0) (reachable_emptyClk ClkOp.Fits)
    ⟨by decide, fun _ => rfl⟩ ⟨0, rfl⟩
  have htwo := reachable_call (.register 1) hone ⟨by decide, fun _ => rfl⟩ ⟨1, rfl⟩
  have hagain := reachable_call (.register 1) htwo ⟨by decide, by decide⟩ ⟨2, rfl⟩
  have hgone := reachable_call (.deregister 0) hagain trivial ⟨0, rfl⟩
  exact ⟨_, hgone, rfl, clk_registry_of_fits hgone⟩

/-- A node registered twice in a row points to itself; and one that was first of two, was
removed and comes back, closes a ring with the other. -/
theorem clk_registry_cycles :
    (∃ sys, (clkSystem Unit Set.univ).Reachable (fun _ _ => True) sys ∧ sys.2 = [0] ∧
      sys.1.root = some 0 ∧ sys.1.next 0 = some 0 ∧ ¬ Registry sys) ∧
    ∃ sys, (clkSystem Unit Set.univ).Reachable (fun _ _ => True) sys ∧ sys.2 = [1, 0] ∧
      sys.1.root = some 1 ∧ sys.1.next 1 = some 0 ∧ sys.1.next 0 = some 1 ∧ ¬ Registry sys := by
  have hone := reachable_call (.register 0) (reachable_emptyClk fun _ _ => True) trivial ⟨0, rfl⟩
  constructor
  · have htwice := reachable_call (.register 0) hone trivial ⟨1, rfl⟩
    refine ⟨_, htwice, rfl, rfl, rfl, fun hregistry => ?_⟩
    cases hregistry.list.2
  · have htwo := reachable_call (.register 1) hone trivial ⟨1, rfl⟩
    have hgone := reachable_call (.deregister 0) htwo trivial ⟨0, rfl⟩
    have hback := reachable_call (.register 0) hgone trivial ⟨1, rfl⟩
    refine ⟨_, hback, rfl, rfl, rfl, rfl, fun hregistry => ?_⟩
    cases hregistry.list.2.2

end Cyancore.Sysclk
