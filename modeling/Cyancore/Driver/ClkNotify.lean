/-
# Notifying the nodes of a clock change

Both passes over the list are loops that look at the root before they ask whether there
is one, so neither may run on the empty list.  On any other list the pass before the
change calls every node once, in order; the pass after it carries one call too many in
its body and calls every node twice.
-/

import Cyancore.Driver.ClkRegistry

namespace Cyancore.Sysclk

open Cyancore.Math

variable {ω : Type} {state : SysclkState ω} {phase : Phase} {nodes : List Addr}
  {frame middle frame' : StatusCode × SysclkState ω}

/-- What a pass is for: it returns, has called every node once, in order, and gives the bitwise
or of the results. -/
def Notifies (execute : ℕ → SysclkState ω → Run (StatusCode × SysclkState ω)) (phase : Phase)
    (state : SysclkState ω) (nodes : List Addr) : Prop :=
  ∃ (made : List Call) (state' : SysclkState ω),
    Returns (fun fuel => execute fuel state) (StatusCode.orAll (made.map Call.result), state') ∧
    made.map (fun call => (call.phase, call.node)) = nodes.map (phase, ·) ∧
    state'.calls = state.calls ++ made

/-! ## Calls made -/

/-- From one frame to the other the listed nodes were called and `ret` took up their results. -/
structure Called (phase : Phase) (nodes : List Addr) (made : List Call)
    (frame frame' : StatusCode × SysclkState ω) : Prop where
  nodes : made.map (fun call => (call.phase, call.node)) = nodes.map (phase, ·)
  calls : frame'.2.calls = frame.2.calls ++ made
  ret : frame'.1 = (made.map Call.result).foldl (· ||| ·) frame.1
  mem : frame'.2.mem = frame.2.mem

theorem Called.trans {first second : List Addr} {made made' : List Call}
    (hfirst : Called phase first made frame middle)
    (hsecond : Called phase second made' middle frame') :
    Called phase (first ++ second) (made ++ made') frame frame' where
  nodes := by rw [List.map_append, hfirst.nodes, hsecond.nodes, List.map_append]
  calls := by rw [hsecond.calls, hfirst.calls, List.append_assoc]
  ret := by rw [hsecond.ret, hfirst.ret, List.map_append, List.foldl_append]
  mem := hsecond.mem.trans hfirst.mem

theorem called_invoke (phase : Phase) (temp : Addr) (callback : ω → StatusCode × ω)
    (frame : StatusCode × SysclkState ω) :
    Called phase [temp] [⟨phase, temp, (callback frame.2.world).1⟩] frame
      (invoke phase temp callback frame) := by
  constructor <;> rfl

/-! ## One pass -/

/-- A visit to a node with callbacks calls it so many times. -/
def Visits (phase : Phase) (times : ℕ)
    (visit : Addr → StatusCode × SysclkState ω → Run (StatusCode × SysclkState ω)) : Prop :=
  ∀ temp (frame : StatusCode × SysclkState ω), frame.2.HasCallbacks temp →
    ∃ made frame', visit temp frame = .done frame' ∧
      Called phase (List.replicate times temp) made frame frame'

theorem visits_visitPre : Visits .preConfig 1 (visitPre (ω := ω)) := by
  intro temp frame hcallbacks
  obtain ⟨callback, hcallback⟩ := Option.isSome_iff_exists.mp (hcallbacks .preConfig)
  refine ⟨_, _, ?_, called_invoke .preConfig temp callback frame⟩
  rw [visitPre, guardedCall, hcallback]

theorem visits_visitPost : Visits .postConfig 2 (visitPost (ω := ω)) := by
  intro temp frame hcallbacks
  obtain ⟨callback, hcallback⟩ := Option.isSome_iff_exists.mp (hcallbacks .postConfig)
  have honce := called_invoke .postConfig temp callback frame
  have htwice := called_invoke .postConfig temp callback (invoke .postConfig temp callback frame)
  refine ⟨_, _, ?_, honce.trans htwice⟩
  rw [visitPost, unguardedCall, hcallback, Outcome.done_bind, guardedCall, honce.mem, hcallback]

section Pass

variable {times : ℕ}
  {visit : Addr → StatusCode × SysclkState ω → Run (StatusCode × SysclkState ω)}

/-- From the node it stands at, a pass visits the nodes up to the end of the list. -/
theorem returns_executeWalk (hvisits : Visits phase times visit) {temp : Addr} {rest : List Addr}
    (hlinked : Linked frame.2.next (some temp) (temp :: rest) none)
    (hcallbacks : ∀ node ∈ temp :: rest, frame.2.HasCallbacks node) :
    ∃ made frame', Returns (fun fuel => loop (executeTurn visit) fuel (some temp, frame)) frame' ∧
      Called phase ((temp :: rest).flatMap (List.replicate times)) made frame frame' := by
  induction rest generalizing temp frame with
  | nil =>
      obtain ⟨made, middle, hvisit, hcalled⟩ := hvisits temp frame (hcallbacks temp (by simp))
      have hnext : middle.2.next temp = none := by
        rw [SysclkState.next, hcalled.mem]
        exact hlinked.2
      have hturn : executeTurn visit (some temp, frame) = .done (.exit middle) := by
        simp [executeTurn, hvisit, hnext]
      exact ⟨made, middle, (returns_loop_of_exit hturn).mpr rfl, by simpa using hcalled⟩
  | cons succ rest ih =>
      obtain ⟨made, middle, hvisit, hcalled⟩ := hvisits temp frame (hcallbacks temp (by simp))
      have hsame : middle.2.next = frame.2.next := by
        ext1 node
        rw [SysclkState.next, hcalled.mem, SysclkState.next]
      have hnext : middle.2.next temp = some succ := hsame ▸ hlinked.2.1
      have hturn : executeTurn visit (some temp, frame) = .done (.next (some succ, middle)) := by
        simp [executeTurn, hvisit, hnext]
      have hrest : Linked middle.2.next (some succ) (succ :: rest) none :=
        hsame ▸ ⟨rfl, hlinked.2.2⟩
      have hleft : ∀ node ∈ succ :: rest, middle.2.HasCallbacks node := by
        intro node hnode phase
        rw [hcalled.mem]
        exact hcallbacks node (List.mem_cons_of_mem temp hnode) phase
      obtain ⟨made', frame', hreturns, hcalled'⟩ := ih hrest hleft
      refine ⟨made ++ made', frame', (returns_loop_of_next hturn).mpr hreturns, ?_⟩
      rw [List.flatMap_cons]
      exact hcalled.trans hcalled'

/-- A pass over a list with a node returns, having visited every node in order. -/
theorem returns_execute (hvisits : Visits phase times visit) (hlist : state.ListIs nodes)
    (hcallbacks : ∀ node ∈ nodes, state.HasCallbacks node) (hnodes : nodes ≠ []) :
    ∃ made frame', Returns (fun fuel => executeConfigClkCallback visit fuel state) frame' ∧
      Called phase (nodes.flatMap (List.replicate times)) made (StatusCode.success, state)
        frame' := by
  cases nodes with
  | nil => exact absurd rfl hnodes
  | cons temp rest =>
      simp only [executeConfigClkCallback, hlist.1]
      exact returns_executeWalk hvisits ⟨rfl, hlist.2⟩ hcallbacks

/-- A pass over the empty list follows the null root. -/
theorem not_returns_execute_nil (hlist : state.ListIs []) (result : StatusCode × SysclkState ω) :
    ¬ Returns (fun fuel => executeConfigClkCallback visit fuel state) result := by
  have hroot : state.root = none := hlist
  simp only [executeConfigClkCallback, hroot]
  exact not_returns_loop_of_fault rfl

/-- So a pass does what it is for exactly when there is a node and each visit calls it once. -/
theorem notifies_execute_iff (hvisits : Visits phase times visit) (hlist : state.ListIs nodes)
    (hcallbacks : ∀ node ∈ nodes, state.HasCallbacks node) :
    Notifies (executeConfigClkCallback visit) phase state nodes ↔ nodes ≠ [] ∧ times = 1 := by
  constructor
  · rintro ⟨made, state', hreturns, hmade, hcalls⟩
    have hnodes : nodes ≠ [] := by
      rintro rfl
      exact not_returns_execute_nil hlist _ hreturns
    refine ⟨hnodes, ?_⟩
    obtain ⟨made', frame', hreturns', hcalled⟩ :=
      returns_execute hvisits hlist hcallbacks hnodes
    have hsame := Returns.unique (fuelMono_loop _ _) hreturns hreturns'
    have hlog : state.calls ++ made = state.calls ++ made' := by
      rw [← hcalls, ← hcalled.calls, ← hsame]
    rw [← List.append_cancel_left hlog] at hcalled
    have hlength := congrArg List.length (hmade.symm.trans hcalled.nodes)
    have hpos : 0 < nodes.length := List.length_pos_iff.mpr hnodes
    simp only [List.length_map, List.length_flatMap, List.length_replicate, List.map_const',
      List.sum_replicate_nat] at hlength
    exact Nat.eq_of_mul_eq_mul_left hpos (hlength.symm.trans (Nat.mul_one _).symm)
  · rintro ⟨hnodes, rfl⟩
    obtain ⟨made, frame', hreturns, hcalled⟩ := returns_execute hvisits hlist hcallbacks hnodes
    refine ⟨made, frame'.2, ?_, ?_, hcalled.calls⟩
    · have hret : frame'.1 = StatusCode.orAll (made.map Call.result) := hcalled.ret
      rw [← hret]
      exact hreturns
    · have hone : nodes.flatMap (List.replicate 1) = nodes := List.flatMap_singleton' nodes
      rw [hcalled.nodes, hone]

end Pass

/-! ## The two passes -/

/-- The pass before the change does what it is for on every list but the empty one, and the
pass after it on none. -/
theorem notifies_iff (hlist : state.ListIs nodes)
    (hcallbacks : ∀ node ∈ nodes, state.HasCallbacks node) :
    (Notifies sysclkExecutePreConfigClkCallback .preConfig state nodes ↔ nodes ≠ []) ∧
    ¬ Notifies sysclkExecutePostConfigClkCallback .postConfig state nodes := by
  constructor
  · refine (notifies_execute_iff visits_visitPre hlist hcallbacks).trans ?_
    exact and_iff_left rfl
  · intro hnotifies
    have htimes := ((notifies_execute_iff visits_visitPost hlist hcallbacks).mp hnotifies).2
    exact absurd htimes (by decide)

/-- A list of two nodes, whose callbacks report different errors. -/
def twoClk : SysclkState Unit where
  mem addr := ⟨some fun world => (0x10 * addr, world), some fun world => (0x10 * addr, world),
    if addr = 1 then some 2 else none⟩
  root := some 1
  world := ()
  calls := []

/-- On it the first pass does what it is for, and the second one does not. -/
theorem notifies_twoClk :
    Notifies sysclkExecutePreConfigClkCallback .preConfig twoClk [1, 2] ∧
      ¬ Notifies sysclkExecutePostConfigClkCallback .postConfig twoClk [1, 2] := by
  have hcallbacks : ∀ node ∈ [1, 2], twoClk.HasCallbacks node :=
    fun _ _ phase => by cases phase <;> rfl
  have hlist : twoClk.ListIs [1, 2] := ⟨rfl, rfl, rfl⟩
  obtain ⟨hpre, hpost⟩ := notifies_iff hlist hcallbacks
  exact ⟨hpre.mpr (by decide), hpost⟩

/-- Before any driver has registered, the first pass follows the null root; and on a list of two
nodes the second one makes four calls. -/
theorem notify_faults_and_repeats :
    (emptyClk.ListIs [] ∧ sysclkExecutePreConfigClkCallback 1 emptyClk = .fault .nullDeref ∧
      ¬ Notifies sysclkExecutePreConfigClkCallback .preConfig emptyClk []) ∧
    twoClk.ListIs [1, 2] ∧
      (∃ state', Returns (fun fuel => sysclkExecutePostConfigClkCallback fuel twoClk)
        (0x30, state') ∧ state'.calls.map Call.node = [1, 1, 2, 2]) ∧
      ¬ Notifies sysclkExecutePostConfigClkCallback .postConfig twoClk [1, 2] := by
  have hempty : emptyClk.ListIs [] := rfl
  have htwo : twoClk.ListIs [1, 2] := ⟨rfl, rfl, rfl⟩
  refine ⟨⟨hempty, rfl, ?_⟩, htwo, ⟨_, ⟨2, rfl⟩, rfl⟩, ?_⟩
  · rintro ⟨made, state', hreturns, -⟩
    exact not_returns_execute_nil hempty _ hreturns
  · intro hnotifies
    have hcallbacks : ∀ node ∈ [1, 2], twoClk.HasCallbacks node :=
      fun _ _ phase => by cases phase <;> rfl
    have hiff := notifies_execute_iff visits_visitPost htwo hcallbacks
    exact absurd (hiff.mp hnotifies).2 (by decide)

end Cyancore.Sysclk
