/-
# Clock callbacks

`sysclk.c`: drivers that depend on the clock put a node of their own on a list, and a
change of the clock calls every node before and after.  The nodes lie in a memory of
nodes, and the list runs through their `next` fields from `root`.  The key of the list is
held throughout each call, so calls do not overlap; the callbacks act on the rest of the
system, a world of any type, and cannot enter the list while the key is held.
-/

import Cyancore.Basic
import Mathlib.Logic.Function.Basic

namespace Cyancore.Sysclk

open Cyancore.Math

/-- Where a node lies. -/
abbrev Addr := ℕ

/-- `sysclk_config_clk_callback_t`. -/
structure ConfigClkCallback (ω : Type) where
  preConfig : Option (ω → StatusCode × ω)
  postConfig : Option (ω → StatusCode × ω)
  next : Option Addr

/-- The moments at which a node is called. -/
inductive Phase
  | preConfig
  | postConfig
  deriving DecidableEq, Repr

/-- One invocation of a callback. -/
structure Call where
  phase : Phase
  node : Addr
  result : StatusCode
  deriving DecidableEq, Repr

/-- The nodes, the static `root`, the rest of the system, and the invocations made so far. -/
structure SysclkState (ω : Type) where
  mem : Addr → ConfigClkCallback ω
  root : Option Addr
  world : ω
  calls : List Call

variable {ω : Type}

/-- The callback of a node for a phase. -/
def ConfigClkCallback.callback (node : ConfigClkCallback ω) :
    Phase → Option (ω → StatusCode × ω)
  | .preConfig => node.preConfig
  | .postConfig => node.postConfig

namespace SysclkState

variable (state : SysclkState ω)

/-- `addr->next`. -/
def next (addr : Addr) : Option Addr := (state.mem addr).next

/-- `addr->next = value`. -/
def setNext (addr : Addr) (value : Option Addr) : SysclkState ω :=
  { state with mem := Function.update state.mem addr { state.mem addr with next := value } }

/-- `root = value`. -/
def setRoot (value : Option Addr) : SysclkState ω := { state with root := value }

end SysclkState

/-! ## The list -/

/-- One turn of the walk to the end of the list. -/
def registerTurn (node : Addr) (state : SysclkState ω) (temp : Addr) :
    Run (Turn Addr (StatusCode × SysclkState ω)) :=
  match state.next temp with
  | none => .done (.exit (StatusCode.success, state.setNext temp (some node)))
  | some temp =>
      if temp = node then .done (.exit (StatusCode.errorListNodeExists, state))
      else .done (.next temp)

/-- `sysclk_register_config_clk_callback`. -/
def sysclkRegisterConfigClkCallback (fuel : ℕ) (node : Addr) (state : SysclkState ω) :
    Run (StatusCode × SysclkState ω) :=
  if !((state.mem node).preConfig.isSome && (state.mem node).postConfig.isSome) then
    .done (StatusCode.errorFuncInvalArg, state)
  else
    match state.root with
    | none => .done (StatusCode.success, state.setRoot (some node))
    | some root => loop (registerTurn node state) fuel root

/-- One turn of the search for a node, with the node before it once there is one. -/
def deregisterTurn (node : Addr) (state : SysclkState ω) :
    Option Addr × Addr → Run (Turn (Option Addr × Addr) (StatusCode × SysclkState ω))
  | (prev, temp) =>
      if temp = node then
        match prev with
        | none => .fault .nullDeref
        | some prev => .done (.exit (StatusCode.success, state.setNext prev (state.next temp)))
      else
        match state.next temp with
        | none => .done (.exit (StatusCode.errorListNodeNotFound, state))
        | some succ => .done (.next (some temp, succ))

/-- `sysclk_deregister_config_clk_callback`.  The pointer of the removed node keeps its value. -/
def sysclkDeregisterConfigClkCallback (fuel : ℕ) (node : Addr) (state : SysclkState ω) :
    Run (StatusCode × SysclkState ω) :=
  match state.root with
  | none => .done (StatusCode.errorFuncInvalArg, state)
  | some root =>
      if root = node then .done (StatusCode.success, state.setRoot (state.next root))
      else loop (deregisterTurn node state) fuel (none, root)

/-! ## Calling the nodes -/

/-- `ret |= temp->callback()` for a callback that is there. -/
def invoke (phase : Phase) (temp : Addr) (callback : ω → StatusCode × ω) :
    StatusCode × SysclkState ω → StatusCode × SysclkState ω
  | (ret, state) =>
      let (result, world) := callback state.world
      (ret ||| result,
        { state with world := world, calls := state.calls ++ [⟨phase, temp, result⟩] })

/-- The call behind the test of the pointer; the other branch reports the missing callback. -/
def guardedCall (phase : Phase) (temp : Addr) (frame : StatusCode × SysclkState ω) :
    StatusCode × SysclkState ω :=
  match (frame.2.mem temp).callback phase with
  | some callback => invoke phase temp callback frame
  | none => (frame.1 ||| StatusCode.errorFuncInval, frame.2)

/-- The call without the test. -/
def unguardedCall (phase : Phase) (temp : Addr) (frame : StatusCode × SysclkState ω) :
    Run (StatusCode × SysclkState ω) :=
  match (frame.2.mem temp).callback phase with
  | some callback => .done (invoke phase temp callback frame)
  | none => .fault .nullDeref

/-- One turn of `do { … temp = temp->next; } while(temp)`, with the given visit to a node. -/
def executeTurn
    (visit : Addr → StatusCode × SysclkState ω → Run (StatusCode × SysclkState ω)) :
    Option Addr × StatusCode × SysclkState ω →
      Run (Turn (Option Addr × StatusCode × SysclkState ω) (StatusCode × SysclkState ω))
  | (none, _) => .fault .nullDeref
  | (some temp, frame) => do
      let (ret, state) ← visit temp frame
      match state.next temp with
      | none => .done (.exit (ret, state))
      | some succ => .done (.next (some succ, ret, state))

def executeConfigClkCallback
    (visit : Addr → StatusCode × SysclkState ω → Run (StatusCode × SysclkState ω)) (fuel : ℕ)
    (state : SysclkState ω) : Run (StatusCode × SysclkState ω) :=
  loop (executeTurn visit) fuel (state.root, StatusCode.success, state)

/-- The body of the loop before the change. -/
def visitPre (temp : Addr) (frame : StatusCode × SysclkState ω) :
    Run (StatusCode × SysclkState ω) :=
  .done (guardedCall .preConfig temp frame)

/-- The body of the loop after the change, which calls once more ahead of the test. -/
def visitPost (temp : Addr) (frame : StatusCode × SysclkState ω) :
    Run (StatusCode × SysclkState ω) := do
  let frame ← unguardedCall .postConfig temp frame
  .done (guardedCall .postConfig temp frame)

/-- `sysclk_execute_pre_config_clk_callback`. -/
def sysclkExecutePreConfigClkCallback (fuel : ℕ) (state : SysclkState ω) :
    Run (StatusCode × SysclkState ω) :=
  executeConfigClkCallback visitPre fuel state

/-- `sysclk_execute_post_config_clk_callback`. -/
def sysclkExecutePostConfigClkCallback (fuel : ℕ) (state : SysclkState ω) :
    Run (StatusCode × SysclkState ω) :=
  executeConfigClkCallback visitPost fuel state

/-! ## Reading a state that was written -/

namespace SysclkState

variable {state : SysclkState ω}

@[simp]
theorem next_setNext (addr : Addr) (value : Option Addr) :
    (state.setNext addr value).next = Function.update state.next addr value := by
  ext1 other
  by_cases heq : other = addr
  · subst heq
    simp [next, setNext]
  · simp [next, setNext, heq]

@[simp]
theorem root_setNext (addr : Addr) (value : Option Addr) :
    (state.setNext addr value).root = state.root := rfl

@[simp]
theorem callback_setNext (addr : Addr) (value : Option Addr) (phase : Phase) (other : Addr) :
    ((state.setNext addr value).mem other).callback phase = (state.mem other).callback phase := by
  by_cases heq : other = addr
  · subst heq
    cases phase <;> simp [ConfigClkCallback.callback, setNext]
  · simp [setNext, heq]

@[simp]
theorem next_setRoot (value : Option Addr) : (state.setRoot value).next = state.next := rfl

end SysclkState

end Cyancore.Sysclk
