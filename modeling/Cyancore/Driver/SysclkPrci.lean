/-
# The system clock driver of the FE310

`sysclk_prci.c` moves the core between three sources of `hfclk`: the internal oscillator,
the crystal, which reaches the core through the bypass of the PLL, and the PLL itself.
Each move is a sequence of stores that starts from whatever the move before it left.

The lock that the functions hold admits one of them at a time, so a run is a sequence of
requests, and what the hardware sees is the trace of each.
-/

import Cyancore.Driver.Prci
import Cyancore.Math.Transition

namespace Cyancore.Driver

open Cyancore.Math StatusCode

/-- `clock_type_t` as it arrives in a register. -/
def ClockType.ofArg? : ℕ → Option ClockType
  | 0 => some .internal
  | 1 => some .external
  | 2 => some .pll
  | _ => none

/-- `RET_ON_FAIL(port && port->baddr && port->base_clk, status)`. -/
def withPort (status : StatusCode) (body : SysclkPort → ClockOp StatusCode) :
    ClockOp StatusCode := do
  match ← Traced.read fun clock => clock.sysclk with
  | none => return status
  | some port => if port.baddr ≠ 0 ∧ port.baseClk ≠ 0 then body port else return status

/-- `sysclk_disable`.  The block that it clears and frees stays where `sysclk` points. -/
def sysclkDisable : ClockOp StatusCode :=
  withPort errorDriverData fun _ => do
    let enabled ← prciHfoscEnable
    let set ← prciHfoscSetClk 16000000
    prciPllDeselectPll
    prciPllInline
    Traced.modify fun clock => { clock with sysclk := some ⟨0, 0, 0, 0, .internal⟩ }
    return orAll [enabled, set]

/-- `sysclk_reset`. -/
def sysclkReset : ClockOp StatusCode :=
  withPort errorDriverData fun _ => do
    let rosc ← prciHfoscEnable
    let xosc ← prciHfxocsEnable
    prciPllSelectXosc
    prciPllSelectPll
    prciPllBypass
    let off ← prciHfoscDisable
    Traced.modify fun clock => { clock with clkType := .external }
    return orAll [rosc, xosc, off]

/-- `sysclk_set_internal`, with the status that decides whether it logs a failure. -/
def sysclkSetInternal (clk : ℕ) : ClockOp StatusCode := do
  let xosc ← prciHfxocsEnable
  prciPllBypass
  let rosc ← prciHfoscEnable
  let set ← prciHfoscSetClk clk
  prciPllSelectRosc
  prciPllDeselectPll
  prciPllInline
  let off ← prciHfxocsDisable
  return orAll [xosc, rosc, set, off]

/-- `sysclk_set_external`, with the status that decides whether it logs a failure. -/
def sysclkSetExternal : ClockOp StatusCode := do
  let rosc ← prciHfoscEnable
  let xosc ← prciHfxocsEnable
  prciPllSelectXosc
  prciPllSelectPll
  prciPllBypass
  let off ← prciHfoscDisable
  return orAll [rosc, xosc, off]

/-- `sysclk_set_pll`, with the status that decides whether it logs a failure. -/
def sysclkSetPll (port : SysclkPort) (clk : ℕ) (lockClears : Bool) : ClockOp StatusCode := do
  let rosc ← prciHfoscEnable
  let xosc ← prciHfxocsEnable
  prciPllBypass
  prciPllSelectXosc
  prciPllSetClk port clk lockClears
  prciPllSelectPll
  prciPllInline
  let off ← prciHfoscDisable
  return orAll [rosc, xosc, off]

/-- `sysclk_configure_clk`, between the callbacks that return `before` and `after`; the
status is the one stored in `ret`. -/
def sysclkConfigureClk (a0 a1 : ℕ) (lockClears : Bool) (before after : StatusCode) :
    ClockOp StatusCode :=
  withPort errorInvalPointer fun port => do
    match ClockType.ofArg? a0 with
    | some .internal => do
        let _ ← sysclkSetInternal a1
        Traced.modify fun clock => { clock with clkType := .internal }
        return before ||| after
    | some .external => do
        let _ ← sysclkSetInternal a1
        let _ ← sysclkSetExternal
        Traced.modify fun clock => { clock with clkType := .external }
        return before ||| after
    | some .pll => do
        let _ ← sysclkSetPll port a1 lockClears
        Traced.modify fun clock => { clock with clkType := .pll }
        return before ||| after
    | none => return errorFuncInvalArg ||| after

/-! ## Runs -/

/-- What the driver is asked to do, with what its surroundings contribute. -/
inductive ClockRequest
  | /-- `sysclk_setup`, or the next owner of the freed block, leaves this port behind. -/
    setup (port : SysclkPort)
  | /-- `sysclk_reset`. -/
    reset
  | /-- `config_clk`, with its arguments, whether `PLLLOCK` ever reads as clear, and what the
    callbacks return. -/
    config (a0 a1 : ℕ) (lockClears : Bool) (before after : StatusCode)
  | /-- `sysclk_disable`. -/
    disable
  deriving DecidableEq, Repr

/-- The request asks for the PLL. -/
def ClockRequest.wantsPll : ClockRequest → Bool
  | .config a0 _ _ _ _ => ClockType.ofArg? a0 == some .pll
  | _ => false

/-- The observer turns to a request. -/
def ClockState.open (clock : ClockState) (request : ClockRequest) : ClockState :=
  { clock with
    ledger.serving := clock.ledger.serving + 1
    ledger.wantsPll := request.wantsPll }

/-- The code that serves a request. -/
def ClockRequest.code : ClockRequest → ClockOp StatusCode
  | .setup port => do
      Traced.modify fun clock => { clock with sysclk := some port }
      return success
  | .reset => sysclkReset
  | .config a0 a1 lockClears before after => sysclkConfigureClk a0 a1 lockClears before after
  | .disable => sysclkDisable

/-- Serve a request. -/
def serve (request : ClockRequest) (clock : ClockState) :
    Passage ClockFault ClockState StatusCode :=
  request.code (clock.open request)

/-- The board after a request that returns. -/
def clockNext (request : ClockRequest) (clock : ClockState) : Option ClockState :=
  match (serve request clock).outcome with
  | .done (_, clock') => some clock'
  | _ => none

/-- Runs of the driver from the given boards. -/
def clockSystem (init : ClockState → Prop) : TransitionSystem ClockState ClockRequest :=
  .ofNext init clockNext

end Cyancore.Driver
