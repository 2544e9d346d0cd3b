/-
# The clock registers of the FE310

The PRCI block holds the configuration of the two oscillators and of the PLL.  Every
function of the HAL is a short sequence of reads and stores on it, and the hardware acts
on each store at once, so the functions are computations that leave a trace.

Registers hold what is written to them, except that the ready bit of an oscillator reads
as its enable bit.  The time the PLL takes to lock is the hardware's affair.
-/

import Cyancore.Basic
import Cyancore.Math.Bits
import Cyancore.Math.Traced
import Mathlib.Algebra.Group.Nat.Defs

namespace Cyancore.Driver

open Cyancore.Math

/-! ## Registers -/

/-- The registers of the block. -/
structure Prci where
  hfrosccfg : BitVec 32
  hfxosccfg : BitVec 32
  pllcfg : BitVec 32
  plloutdiv : BitVec 32
  deriving DecidableEq, Repr

namespace Prci

abbrev hfrosen : ℕ := 30
abbrev hfrosrdy : ℕ := 31
abbrev hfrosdivMask : BitVec 32 := 63
abbrev hfxosen : ℕ := 30
abbrev hfxosrdy : ℕ := 31
abbrev pllr : ℕ := 0
abbrev pllrMask : BitVec 32 := 7
abbrev pllf : ℕ := 4
abbrev pllfMask : BitVec 32 := 0x3f <<< pllf
abbrev pllq : ℕ := 10
abbrev pllqMask : BitVec 32 := 3 <<< pllq
abbrev pllsel : ℕ := 16
abbrev pllrefsel : ℕ := 17
abbrev pllbypass : ℕ := 18
abbrev plloutdivMask : BitVec 32 := 63
abbrev plloutdivby1 : ℕ := 8

/-- An oscillator's register as it reads: ready once it is enabled. -/
def readOsc (word : BitVec 32) (en rdy : ℕ) : BitVec 32 :=
  if word.getLsbD en then setBit word rdy else clearBit word rdy

/-- `MMIO32(port->baddr + HFROSCCFG_OFFSET)`. -/
def readHfrosccfg (prci : Prci) : BitVec 32 := readOsc prci.hfrosccfg hfrosen hfrosrdy

/-- `MMIO32(port->baddr + HFXOSCCFG_OFFSET)`. -/
def readHfxosccfg (prci : Prci) : BitVec 32 := readOsc prci.hfxosccfg hfxosen hfxosrdy

end Prci

/-! ## The state of the driver -/

/-- `clock_type_t`. -/
inductive ClockType
  | internal
  | external
  | pll
  deriving DecidableEq, Repr

/-- `sysclk_port_t`; a base address is that of the block. -/
structure SysclkPort where
  portId : ℕ
  baseClk : ℕ
  baddr : ℕ
  stride : ℕ
  type : ClockType
  deriving DecidableEq, Repr

/-- `pllc_t`. -/
structure PllConfig where
  found : Bool
  r : ℕ
  f : ℕ
  q : ℕ
  diven : Bool
  n : ℕ
  deriving DecidableEq, Repr

/-- What an observer notes about the requests for the PLL; no code reads it. -/
structure Ledger where
  /-- The number of the request that is being served, or was served last. -/
  serving : ℕ
  /-- Whether that request asks for the PLL. -/
  wantsPll : Bool
  /-- The request for the PLL that is in force.  A new request takes over at the first
  store after which the core does not run from the PLL. -/
  inForce : Option ℕ
  /-- The request whose successful search last wrote the divider fields. -/
  dividersOf : Option ℕ
  deriving DecidableEq, Repr

/-- The block, the statics of the driver and of the HAL, and the observer's ledger. -/
structure ClockState where
  prci : Prci
  /-- What the pointer `sysclk` points to. -/
  sysclk : Option SysclkPort
  clkType : ClockType
  /-- The entry of `pllc` for the core that serves the request. -/
  pllc : PllConfig
  ledger : Ledger
  deriving DecidableEq, Repr

/-- How a request can end without returning. -/
inductive ClockFault
  | /-- An assertion handed control to `plat_panic_handler`. -/
    panic
  | /-- A division by zero. -/
    divideByZero
  deriving DecidableEq, Repr

/-- A computation that records the clock after every store to the block. -/
abbrev ClockOp := Traced ClockFault ClockState

/-- The core runs from the output of the PLL, and not from its bypass. -/
def ClockState.onPll (clock : ClockState) : Bool :=
  clock.prci.pllcfg.getLsbD Prci.pllsel && !clock.prci.pllcfg.getLsbD Prci.pllbypass

/-- The observer's note after a store. -/
def ClockState.settle (clock : ClockState) : ClockState :=
  if clock.onPll then clock
  else { clock with ledger.inForce :=
    if clock.ledger.wantsPll then some clock.ledger.serving else none }

/-- Store to the block. -/
def storePrci (f : Prci → Prci) : ClockOp PUnit :=
  Traced.store fun clock => { clock with prci := f clock.prci }.settle

/-- The store that writes the divider fields, which the observer notes too. -/
def storeDividers (f : Prci → Prci) : ClockOp PUnit :=
  Traced.store fun clock =>
    { clock with prci := f clock.prci, ledger.dividersOf := some clock.ledger.serving }.settle

/-- Read from the block. -/
def readPrci {α : Type} (f : Prci → α) : ClockOp α := Traced.read fun clock => f clock.prci

/-- `while(!ready);` on a register that nothing else changes. -/
def waitUntil (ready : Prci → Bool) : ClockOp PUnit := do
  if ← readPrci ready then pure ⟨⟩ else Traced.hang

/-! ## Oscillators (`hfosc.c`) -/

open Prci StatusCode

/-- `ICLK`, in hertz. -/
def iclk : ℕ := 72000000

/-- `prci_hfxocs_enable`. -/
def prciHfxocsEnable : ClockOp StatusCode := do
  storePrci fun prci => { prci with hfxosccfg := setBit prci.readHfxosccfg hfxosen }
  waitUntil fun prci => prci.readHfxosccfg.getLsbD hfxosrdy
  if ← readPrci fun prci => prci.readHfxosccfg.getLsbD hfxosen then
    return success
  else
    return errorSystem

/-- `prci_hfxocs_disable`. -/
def prciHfxocsDisable : ClockOp StatusCode := do
  storePrci fun prci => { prci with hfxosccfg := clearBit prci.readHfxosccfg hfxosen }
  if ← readPrci fun prci => prci.readHfxosccfg.getLsbD hfxosen then
    return errorSystem
  else
    return success

/-- `prci_hfosc_enable`. -/
def prciHfoscEnable : ClockOp StatusCode := do
  storePrci fun prci => { prci with hfrosccfg := setBit prci.readHfrosccfg hfrosen }
  waitUntil fun prci => prci.readHfrosccfg.getLsbD hfrosrdy
  if ← readPrci fun prci => prci.readHfrosccfg.getLsbD hfrosen then
    return success
  else
    return errorSystem

/-- `prci_hfosc_disable`. -/
def prciHfoscDisable : ClockOp StatusCode := do
  storePrci fun prci => { prci with hfrosccfg := clearBit prci.readHfrosccfg hfrosen }
  if ← readPrci fun prci => prci.readHfrosccfg.getLsbD hfrosen then
    return errorSystem
  else
    return success

/-- `prci_hfosc_set_clk`; it waits for bit `HFXOSCRDY` of this oscillator's register. -/
def prciHfoscSetClk (clk : ℕ) : ClockOp StatusCode := do
  if clk = 0 then
    Traced.abort .divideByZero
  else
    let divdr : BitVec 32 := BitVec.ofNat 32 (iclk / clk) - 1
    storePrci fun prci =>
      { prci with
        hfrosccfg := prci.readHfrosccfg &&& ~~~hfrosdivMask ||| divdr &&& hfrosdivMask }
    waitUntil fun prci => prci.readHfrosccfg.getLsbD hfxosrdy
    if ← readPrci fun prci => prci.readHfrosccfg &&& hfrosdivMask == divdr then
      return success
    else
      return errorSystem

/-! ## PLL (`pll.c`) -/

def maxPllOut : ℕ := 320000000
def minPllOut : ℕ := 375000
def minRefr : ℕ := 6000000
def maxRefr : ℕ := 12000000
def minVco : ℕ := 384000000
def maxVco : ℕ := 768000000
def minPllo : ℕ := 48000000
def maxPllo : ℕ := 384000000

/-- `abs((int)(a - b))` on unsigned operands. -/
def absDiff (a b : ℕ) : ℕ :=
  let diff := (a + 2 ^ 32 - b) % 2 ^ 32
  if diff < 2 ^ 31 then diff else 2 ^ 32 - diff

/-- The search: the smallest difference so far and the configuration that gave it. -/
structure PllSearch where
  nearest : ℕ
  config : PllConfig
  deriving DecidableEq, Repr

/-- The state of the search after `memset`. -/
def PllSearch.start : PllSearch := ⟨maxPllOut, ⟨false, 0, 0, 0, false, 0⟩⟩

/-- The body of the loop over `ni`. -/
def pllTryDivider (clk ri fi qi pllout : ℕ) (search : PllSearch) (ni : ℕ) : PllSearch :=
  let n := 2 * (ni + 1)
  let diffDiv := absDiff clk (pllout / n)
  let diffNodiv := absDiff clk pllout
  let diff := if diffDiv < diffNodiv then diffDiv else diffNodiv
  let div := if diffDiv < diffNodiv then n else 1
  if diff < search.nearest then ⟨diff, ⟨true, ri, fi, qi, div > 1, ni⟩⟩ else search

/-- The body of the loop over `qi`. -/
def pllTryOutput (clk ri fi vco : ℕ) (search : PllSearch) (qi : ℕ) : PllSearch :=
  let pllout := vco / 2 ^ qi
  if pllout < minPllo ∨ maxPllo < pllout then search
  else (List.range 64).foldl (pllTryDivider clk ri fi qi pllout) search

/-- The body of the loop over `fi`. -/
def pllTryMultiplier (clk ri refr : ℕ) (search : PllSearch) (fi : ℕ) : PllSearch :=
  let vco := refr * (2 * (fi + 1))
  if vco < minVco ∨ maxVco < vco then search
  else (List.range' 1 3).foldl (pllTryOutput clk ri fi vco) search

/-- The body of the loop over `ri`. -/
def pllTryReference (base clk : ℕ) (search : PllSearch) (ri : ℕ) : PllSearch :=
  let refr := base / (ri + 1)
  if refr < minRefr ∨ maxRefr < refr then search
  else (List.range 64).foldl (pllTryMultiplier clk ri refr) search

/-- `pll_config_for_nearest_freq` after its assertion. -/
def pllConfigForNearestFreq (base clk : ℕ) : PllConfig :=
  ((List.range 8).foldl (pllTryReference base clk) .start).config

/-- The word that `prci_pll_write_config` leaves in `PLLCFG`. -/
def pllDividers (conf : PllConfig) (pllcfg : BitVec 32) : BitVec 32 :=
  pllcfg &&& ~~~(pllrMask ||| pllfMask ||| pllqMask)
    ||| (BitVec.ofNat 32 conf.r <<< pllr) &&& pllrMask
    ||| (BitVec.ofNat 32 conf.f <<< pllf) &&& pllfMask
    ||| (BitVec.ofNat 32 conf.q <<< pllq) &&& pllqMask

/-- `prci_pll_write_config`. -/
def prciPllWriteConfig (conf : PllConfig) : ClockOp PUnit := do
  if conf.found then
    if conf.diven then
      storePrci fun prci =>
        { prci with plloutdiv :=
            clearBit (prci.plloutdiv ||| BitVec.ofNat 32 conf.n &&& plloutdivMask) plloutdivby1 }
    else
      storePrci fun prci => { prci with plloutdiv := setBit prci.plloutdiv plloutdivby1 }
    storeDividers fun prci => { prci with pllcfg := pllDividers conf prci.pllcfg }

/-- `prci_pll_wait_to_lock`, which spins for as long as `PLLLOCK` reads as set. -/
def prciPllWaitToLock (lockClears : Bool) : ClockOp PUnit :=
  if lockClears then pure ⟨⟩ else Traced.hang

/-- `prci_pll_set_clk`. -/
def prciPllSetClk (port : SysclkPort) (clk : ℕ) (lockClears : Bool) : ClockOp PUnit := do
  if minPllOut ≤ clk ∧ clk ≤ maxPllOut then
    let conf := pllConfigForNearestFreq port.baseClk clk
    Traced.modify fun clock => { clock with pllc := conf }
    prciPllWriteConfig conf
    prciPllWaitToLock lockClears
  else
    Traced.abort .panic

/-- `prci_pll_get_clk`; `clk` is the value of `*clk`, returned with its update. -/
def prciPllGetClk (port : SysclkPort) (clk : ℕ) : ClockOp (StatusCode × ℕ) := do
  let config ← Traced.read fun clock => clock.pllc
  let pllref := port.baseClk
  if !config.found then
    return (errorSystemClkCaliberation, clk)
  let refr := pllref / (config.r + 1)
  let vco := refr * (2 * (config.f + 1)) % 2 ^ 32
  let pllout := vco / 2 ^ config.q
  if config.diven then
    return (success, pllout / (2 * (config.n + 1)))
  return (success, pllout)

/-- `prci_pll_select_xosc`. -/
def prciPllSelectXosc : ClockOp PUnit :=
  storePrci fun prci => { prci with pllcfg := setBit prci.pllcfg pllrefsel }

/-- `prci_pll_select_rosc`. -/
def prciPllSelectRosc : ClockOp PUnit :=
  storePrci fun prci => { prci with pllcfg := clearBit prci.pllcfg pllrefsel }

/-- `prci_pll_select_pll`. -/
def prciPllSelectPll : ClockOp PUnit :=
  storePrci fun prci => { prci with pllcfg := setBit prci.pllcfg pllsel }

/-- `prci_pll_deselect_pll`. -/
def prciPllDeselectPll : ClockOp PUnit :=
  storePrci fun prci => { prci with pllcfg := clearBit prci.pllcfg pllsel }

/-- `prci_pll_bypass`. -/
def prciPllBypass : ClockOp PUnit :=
  storePrci fun prci => { prci with pllcfg := setBit prci.pllcfg pllbypass }

/-- `prci_pll_inline`. -/
def prciPllInline : ClockOp PUnit :=
  storePrci fun prci => { prci with pllcfg := clearBit prci.pllcfg pllbypass }

end Cyancore.Driver
