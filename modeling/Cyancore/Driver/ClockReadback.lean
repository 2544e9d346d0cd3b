/-
# Reading the clock back

`sysclk_get_freq` does not look at what selects the source of `hfclk`: it goes by the mode that was
recorded last, and asks the oscillator, the crystal or the PLL for a frequency of its own.  So what
it reports hangs together with what was requested through four things only, the port, the mode, the
divider of the internal oscillator and the configuration of the PLL.  A request changes these as one
function, whatever else it stores on the way.
-/

import Cyancore.Driver.ClockReport
import Cyancore.Driver.PllOptimal
import Mathlib.Order.Bounds.Basic

namespace Cyancore.Driver

open Cyancore.Math Prci StatusCode

/-- `prci_hfosc_get_clk`. -/
def prciHfoscGetClk : ClockOp (StatusCode × ℕ) := do
  let hfrosc ← readPrci readHfrosccfg
  return (success, iclk / ((hfrosc &&& hfrosdivMask) + 1).toNat)

/-- `sysclk_get_freq`: the status and `ret->p`, which held `p` before; `getclk` is what the local
variable of that name holds before it is set. -/
def sysclkGetFreq (p getclk : ℕ) : ClockOp (StatusCode × ℕ) := do
  match ← Traced.read ClockState.port? with
  | none => return (errorInvalPointer, p)
  | some port =>
      match ← Traced.read ClockState.clkType with
      | .internal => prciHfoscGetClk
      | .external => return (success, port.baseClk)
      | .pll => prciPllGetClk port getclk

/-- `sysclk_get_clk`: the status and `*clk`. -/
def sysclkGetClk (p getclk : ℕ) : ClockOp (StatusCode × ℕ) := do
  let (status, p) ← sysclkGetFreq p getclk
  return (status, if status = success then p else 0)

/-! ## What the report depends on -/

/-- The part of the clock that a report depends on. -/
structure ClockSettings where
  sysclk : Option SysclkPort
  clkType : ClockType
  pllc : PllConfig
  /-- The divider field of `HFROSCCFG`. -/
  divider : BitVec 32
  deriving DecidableEq, Repr

/-- The settings that a clock is in. -/
def ClockState.settings (clock : ClockState) : ClockSettings where
  sysclk := clock.sysclk
  clkType := clock.clkType
  pllc := clock.pllc
  divider := clock.prci.hfrosccfg &&& hfrosdivMask

/-- The divider that a request for the internal oscillator leaves in the register. -/
def hfroscDivider (clk : ℕ) : BitVec 32 := (BitVec.ofNat 32 (iclk / clk) - 1) &&& hfrosdivMask

namespace ClockSettings

variable (settings : ClockSettings)

/-- The port, once it is set up. -/
def port? : Option SysclkPort :=
  settings.sysclk.filter fun port => port.baddr ≠ 0 ∧ port.baseClk ≠ 0

/-- What is reported. -/
def report : StatusCode × ℕ :=
  match settings.port? with
  | none => (errorInvalPointer, 0)
  | some port =>
      match settings.clkType with
      | .internal => (success, iclk / (settings.divider + 1).toNat)
      | .external => (success, port.baseClk)
      | .pll =>
          if settings.pllc.found then (success, settings.pllc.output port.baseClk)
          else (errorSystemClkCaliberation, 0)

/-- What a request makes of the settings where there is a port. -/
def onPort (change : SysclkPort → ClockSettings) : ClockSettings :=
  match settings.port? with
  | none => settings
  | some port => change port

/-- What a request makes of the settings. -/
def serve : ClockRequest → ClockSettings
  | .setup port => { settings with sysclk := some port }
  | .reset => settings.onPort fun _ => { settings with clkType := .external }
  | .config a0 a1 _ _ _ => settings.onPort fun port =>
      match ClockType.ofArg? a0 with
      | some .internal => { settings with divider := hfroscDivider a1, clkType := .internal }
      | some .external => { settings with divider := hfroscDivider a1, clkType := .external }
      | some .pll =>
          { settings with pllc := pllConfigForNearestFreq port.baseClk a1, clkType := .pll }
      | none => settings
  | .disable => settings.onPort fun _ =>
      { settings with
        divider := hfroscDivider 16000000
        sysclk := some ⟨0, 0, 0, 0, .internal⟩ }

end ClockSettings

/-- The report is what the settings say, and nothing is changed. -/
theorem outcome_sysclkGetClk (p getclk : ℕ) (clock : ClockState) :
    (sysclkGetClk p getclk clock).outcome = .done (clock.settings.report, clock) := by
  have hport : clock.settings.port? = clock.port? := rfl
  unfold ClockSettings.report
  rw [hport]
  cases hport' : clock.port? with
  | none =>
      simp only [sysclkGetClk, sysclkGetFreq, bind, Traced.bind, Traced.read, hport']
      rfl
  | some port =>
      cases htype : clock.clkType with
      | internal =>
          simp only [sysclkGetClk, sysclkGetFreq, bind, Traced.bind, Traced.read, hport', htype,
            prciHfoscGetClk, readPrci, readHfrosccfg, readOsc_and_mask, ClockState.settings]
          rfl
      | external =>
          simp only [sysclkGetClk, sysclkGetFreq, bind, Traced.bind, Traced.read, hport', htype,
            ClockState.settings]
          rfl
      | pll =>
          cases hfound : clock.pllc.found with
          | true =>
              have hget := prciPllGetClk_of_found port getclk hfound
              simp only [sysclkGetClk, sysclkGetFreq, bind, Traced.bind, Traced.read, hport', htype,
                hget, ClockState.settings, hfound]
              rfl
          | false =>
              simp only [sysclkGetClk, sysclkGetFreq, bind, Traced.bind, Traced.read, hport', htype,
                prciPllGetClk, ClockState.settings, hfound]
              rfl

/-! ## Requests change the settings -/

/-- On return the code has made this change to the settings. -/
abbrev Sets {α : Type} (change : ClockSettings → ClockSettings) (code : ClockOp α) : Prop :=
  code.Changes ClockState.settings change

@[simp]
theorem ClockState.settle_settings (clock : ClockState) :
    clock.settle.settings = clock.settings := by
  unfold ClockState.settle
  split <;> rfl

/-- A store that leaves the divider of the internal oscillator alone. -/
theorem sets_storePrci {f : Prci → Prci}
    (hf : ∀ prci, (f prci).hfrosccfg &&& hfrosdivMask = prci.hfrosccfg &&& hfrosdivMask) :
    Sets id (storePrci f) := by
  apply Traced.Changes.store
  intro clock
  rw [ClockState.settle_settings, ClockState.settings, hf]
  rfl

theorem sets_waitUntil (ready : Prci → Bool) : Sets id (waitUntil ready) := by
  apply (Traced.Changes.read _).skip
  intro value
  cases value with
  | true => exact .pure _
  | false => exact .hang

theorem sets_status (test : Prci → Bool) (yes no : StatusCode) :
    Sets id (do if ← readPrci test then return yes else return no) := by
  apply (Traced.Changes.read _).skip
  intro value
  cases value with
  | true => exact .pure _
  | false => exact .pure _

/-- The divider field lies below bit 6. -/
theorem and_hfrosdivMask_congr {word word' : BitVec 32}
    (hlow : ∀ i (hi : i < 32), i < 6 → word[i] = word'[i]) :
    word &&& hfrosdivMask = word' &&& hfrosdivMask := by
  have hmask : hfrosdivMask.toNat < 2 ^ 6 := by decide
  ext i hi
  rw [BitVec.getElem_and, BitVec.getElem_and]
  by_cases hlt : i < 6
  · rw [hlow i hi hlt]
  · rw [getElem_eq_false_of_lt hmask hi (Nat.le_of_not_lt hlt), Bool.and_false, Bool.and_false]

theorem setBit_and_mask (word : BitVec 32) :
    setBit word hfrosen &&& hfrosdivMask = word &&& hfrosdivMask :=
  and_hfrosdivMask_congr fun i _ hi => by simp [show i ≠ 30 by omega]

theorem clearBit_and_mask (word : BitVec 32) :
    clearBit word hfrosen &&& hfrosdivMask = word &&& hfrosdivMask :=
  and_hfrosdivMask_congr fun i _ hi => by simp [show i ≠ 30 by omega]

/-! ### Oscillators -/

theorem sets_prciHfxocsEnable : Sets id prciHfxocsEnable := by
  apply (sets_storePrci (by intro prci; rfl)).skip
  exact fun _ => (sets_waitUntil _).skip fun _ => sets_status _ _ _

theorem sets_prciHfxocsDisable : Sets id prciHfxocsDisable :=
  (sets_storePrci (by intro prci; rfl)).skip fun _ => sets_status _ _ _

theorem sets_prciHfoscEnable : Sets id prciHfoscEnable := by
  apply (sets_storePrci fun prci => ?_).skip
  · exact fun _ => (sets_waitUntil _).skip fun _ => sets_status _ _ _
  · rw [setBit_and_mask, readHfrosccfg, readOsc_and_mask]

theorem sets_prciHfoscDisable : Sets id prciHfoscDisable := by
  apply (sets_storePrci fun prci => ?_).skip
  · exact fun _ => sets_status _ _ _
  · rw [clearBit_and_mask, readHfrosccfg, readOsc_and_mask]

theorem sets_prciHfoscSetClk (clk : ℕ) :
    Sets (fun settings => { settings with divider := hfroscDivider clk })
      (prciHfoscSetClk clk) := by
  unfold prciHfoscSetClk
  split
  case isTrue => exact .abort _
  case isFalse hclk =>
      refine Traced.Changes.last (.store fun clock => ?_) fun _ =>
        (sets_waitUntil _).skip fun _ => sets_status _ _ _
      rw [ClockState.settle_settings, ClockState.settings, hfroscDivider]
      congr 1
      ext i hi
      simp only [BitVec.getElem_and, BitVec.getElem_or, BitVec.getElem_not]
      cases hfrosdivMask[i] <;> simp

/-! ### PLL -/

theorem sets_prciPllSelectXosc : Sets id prciPllSelectXosc := sets_storePrci fun _ => rfl

theorem sets_prciPllSelectRosc : Sets id prciPllSelectRosc := sets_storePrci fun _ => rfl

theorem sets_prciPllSelectPll : Sets id prciPllSelectPll := sets_storePrci fun _ => rfl

theorem sets_prciPllDeselectPll : Sets id prciPllDeselectPll := sets_storePrci fun _ => rfl

theorem sets_prciPllBypass : Sets id prciPllBypass := sets_storePrci fun _ => rfl

theorem sets_prciPllInline : Sets id prciPllInline := sets_storePrci fun _ => rfl

theorem sets_prciPllWriteConfig (conf : PllConfig) : Sets id (prciPllWriteConfig conf) := by
  have hdividers : Sets id (storeDividers fun prci =>
      { prci with pllcfg := pllDividers conf prci.pllcfg }) := by
    apply Traced.Changes.store
    intro clock
    rw [ClockState.settle_settings]
    rfl
  unfold prciPllWriteConfig
  split
  · split
    · exact (sets_storePrci (by intro prci; rfl)).skip fun _ => hdividers
    · exact (sets_storePrci (by intro prci; rfl)).skip fun _ => hdividers
  · exact .pure _

theorem sets_prciPllSetClk (port : SysclkPort) (clk : ℕ) (lockClears : Bool) :
    Sets (fun settings => { settings with pllc := pllConfigForNearestFreq port.baseClk clk })
      (prciPllSetClk port clk lockClears) := by
  unfold prciPllSetClk
  split
  · refine Traced.Changes.last (.modify fun _ => rfl) fun _ =>
      (sets_prciPllWriteConfig _).skip fun _ => ?_
    cases lockClears with
    | true => exact .pure _
    | false => exact .hang
  · exact .abort _

/-! ### The driver -/

theorem sets_sysclkSetInternal (clk : ℕ) :
    Sets (fun settings => { settings with divider := hfroscDivider clk })
      (sysclkSetInternal clk) :=
  sets_prciHfxocsEnable.skip fun _ => sets_prciPllBypass.skip fun _ =>
    sets_prciHfoscEnable.skip fun _ => (sets_prciHfoscSetClk clk).last fun _ =>
    sets_prciPllSelectRosc.skip fun _ => sets_prciPllDeselectPll.skip fun _ =>
    sets_prciPllInline.skip fun _ => sets_prciHfxocsDisable.skip fun _ => .pure _

theorem sets_sysclkSetExternal : Sets id sysclkSetExternal :=
  sets_prciHfoscEnable.skip fun _ => sets_prciHfxocsEnable.skip fun _ =>
    sets_prciPllSelectXosc.skip fun _ => sets_prciPllSelectPll.skip fun _ =>
    sets_prciPllBypass.skip fun _ => sets_prciHfoscDisable.skip fun _ => .pure _

theorem sets_sysclkSetPll (port : SysclkPort) (clk : ℕ) (lockClears : Bool) :
    Sets (fun settings => { settings with pllc := pllConfigForNearestFreq port.baseClk clk })
      (sysclkSetPll port clk lockClears) :=
  sets_prciHfoscEnable.skip fun _ => sets_prciHfxocsEnable.skip fun _ =>
    sets_prciPllBypass.skip fun _ => sets_prciPllSelectXosc.skip fun _ =>
    (sets_prciPllSetClk port clk lockClears).last fun _ =>
    sets_prciPllSelectPll.skip fun _ => sets_prciPllInline.skip fun _ =>
    sets_prciHfoscDisable.skip fun _ => .pure _

theorem sets_withPort {status : StatusCode} {body : SysclkPort → ClockOp StatusCode}
    {change : SysclkPort → ClockSettings → ClockSettings}
    (hbody : ∀ port, Sets (change port) (body port)) :
    Sets (fun settings => settings.onPort fun port => change port settings)
      (withPort status body) := by
  intro clock value clock' hdone
  have hport : clock.settings.port? = clock.port? := rfl
  simp only [ClockSettings.onPort, hport]
  cases hport' : clock.port? with
  | some port =>
      rw [ClockOrder.withPort_of_port hport'] at hdone
      exact hbody port clock value clock' hdone
  | none =>
      rw [ClockState.port?, Option.filter_eq_none_iff] at hport'
      simp only [withPort, bind, Traced.bind, Traced.read] at hdone
      cases hsysclk : clock.sysclk with
      | none =>
          rw [hsysclk] at hdone
          cases hdone
          rfl
      | some port =>
          have hset := of_decide_eq_false (Bool.eq_false_of_not_eq_true (hport' port hsysclk))
          simp only [hsysclk, if_neg hset] at hdone
          cases hdone
          rfl

/-- The mode is recorded last. -/
theorem sets_record (type : ClockType) (status : StatusCode) :
    Sets (fun settings => { settings with clkType := type })
      (do Traced.modify fun clock => { clock with clkType := type }
          return status) :=
  Traced.Changes.last (.modify fun _ => rfl) fun _ => .pure _

theorem sets_sysclkReset :
    Sets (fun settings => settings.onPort fun _ => { settings with clkType := .external })
      sysclkReset := by
  apply sets_withPort
  exact fun _ => sets_prciHfoscEnable.skip fun _ => sets_prciHfxocsEnable.skip fun _ =>
    sets_prciPllSelectXosc.skip fun _ => sets_prciPllSelectPll.skip fun _ =>
    sets_prciPllBypass.skip fun _ => sets_prciHfoscDisable.skip fun _ => sets_record _ _

theorem sets_sysclkDisable :
    Sets (fun settings => settings.serve .disable) sysclkDisable := by
  have hrelease (status : StatusCode) :
      Sets (fun settings => { settings with sysclk := some ⟨0, 0, 0, 0, .internal⟩ })
        (do Traced.modify fun clock => { clock with sysclk := some ⟨0, 0, 0, 0, .internal⟩ }
            return status) :=
    Traced.Changes.last (.modify fun _ => rfl) fun _ => .pure _
  apply sets_withPort
  intro port
  have hrest (enabled : StatusCode) :=
    (sets_prciHfoscSetClk 16000000).bind fun set => sets_prciPllDeselectPll.skip fun _ =>
      sets_prciPllInline.skip fun _ => hrelease (orAll [enabled, set])
  exact sets_prciHfoscEnable.skip hrest

theorem sets_sysclkConfigureClk (a0 a1 : ℕ) (lockClears : Bool) (before after : StatusCode) :
    Sets (fun settings => settings.serve (.config a0 a1 lockClears before after))
      (sysclkConfigureClk a0 a1 lockClears before after) := by
  apply sets_withPort
  intro port
  cases ClockType.ofArg? a0 with
  | none => exact .pure _
  | some type =>
      cases type with
      | internal =>
          have hset := (sets_sysclkSetInternal a1).bind fun _ =>
            sets_record .internal (before ||| after)
          exact hset
      | external =>
          have hset := (sets_sysclkSetInternal a1).bind fun _ =>
            sets_sysclkSetExternal.skip fun _ => sets_record .external (before ||| after)
          exact hset
      | pll =>
          have hset := (sets_sysclkSetPll port a1 lockClears).bind fun _ =>
            sets_record .pll (before ||| after)
          exact hset

theorem sets_code (request : ClockRequest) :
    Sets (fun settings => settings.serve request) request.code := by
  cases request with
  | setup port => exact Traced.Changes.last (.modify fun _ => rfl) fun _ => .pure _
  | reset => exact sets_sysclkReset
  | config a0 a1 lockClears before after =>
      exact sets_sysclkConfigureClk a0 a1 lockClears before after
  | disable => exact sets_sysclkDisable

/-- The board after a request is the one on its return. -/
theorem exists_outcome_of_clockNext {request : ClockRequest} {clock clock' : ClockState}
    (hnext : clockNext request clock = some clock') :
    ∃ value, (serve request clock).outcome = .done (value, clock') := by
  unfold clockNext at hnext
  cases hend : (serve request clock).outcome with
  | done result =>
      obtain ⟨value, after⟩ := result
      rw [hend] at hnext
      cases hnext
      exact ⟨value, rfl⟩
  | fault error => simp [hend] at hnext
  | spin => simp [hend] at hnext

/-- A request that returns has made its change to the settings. -/
theorem settings_clockNext {request : ClockRequest} {clock clock' : ClockState}
    (hnext : clockNext request clock = some clock') :
    clock'.settings = clock.settings.serve request := by
  obtain ⟨value, hend⟩ := exists_outcome_of_clockNext hnext
  exact sets_code request (clock.open request) value clock' hend

/-! ## What is reported in a run -/

/-- A setting of the clock, as requested. -/
inductive ClockSetting
  | internal (clk : ℕ)
  | external
  | pll (clk : ℕ)
  deriving DecidableEq, Repr

namespace ClockSetting

/-- The setting after a request that is served. -/
def after (last : ClockSetting) : ClockRequest → ClockSetting
  | .setup _ => last
  | .reset => .external
  | .config a0 a1 _ _ _ =>
      match ClockType.ofArg? a0 with
      | some .internal => .internal a1
      | some .external => .external
      | some .pll => .pll a1
      | none => last
  | .disable =>
      -- the divider is set for 16 MHz, and the mode stays as it was
      match last with
      | .internal _ => .internal 16000000
      | .external => .external
      | .pll clk => .pll clk

/-- A right answer about the setting: the lowest frequency of the oscillator that is high enough,
the crystal's, or the frequency of the PLL nearest to the one requested. -/
def IsAnswer (base : ℕ) : ClockSetting → StatusCode × ℕ → Prop
  | .internal clk, answer =>
      answer.1 = success ∧
        (DividerFits clk → IsLeast {freq | clk ≤ freq ∧ ∃ d < 64, freq = iclk / (d + 1)} answer.2)
  | .external, answer => answer = (success, base)
  | .pll clk, answer =>
      ((∃ r f q, LegalDividers base r f q) →
        answer.1 = success ∧ PllReaches base answer.2 ∧
          ∀ other, PllReaches base other → distance clk answer.2 ≤ distance clk other) ∧
      ((¬ ∃ r f q, LegalDividers base r f q) → answer = (errorSystemClkCaliberation, 0))

/-- The settings that are left behind. -/
def Describes (base : ℕ) (settings : ClockSettings) : ClockSetting → Prop
  | .internal clk => settings.clkType = .internal ∧ settings.divider = hfroscDivider clk
  | .external => settings.clkType = .external
  | .pll clk =>
      settings.clkType = .pll ∧ settings.pllc = pllConfigForNearestFreq base clk ∧
        minPllOut ≤ clk ∧ clk ≤ maxPllOut

end ClockSetting

/-- A board, and what was requested of it last. -/
structure RateRun where
  clock : ClockState
  last : ClockSetting
  deriving DecidableEq, Repr

/-- A request is made, and noted if there is a port to serve it on. -/
def rateNext (request : ClockRequest) (run : RateRun) : Option RateRun :=
  (clockNext request run.clock).map fun clock =>
    ⟨clock, if run.clock.port?.isSome then run.last.after request else run.last⟩

/-- Every port is for the same crystal. -/
def SameCrystal (base : ℕ) (settings : ClockSettings) : Prop :=
  ∀ port, settings.port? = some port → port.baseClk = base

/-- The board is as the last request has left it. -/
structure RateRun.Sound (base : ℕ) (run : RateRun) : Prop where
  describes : run.last.Describes base run.clock.settings
  crystal : SameCrystal base run.clock.settings

/-- Runs from a board that is known. -/
def rateSystem (base : ℕ) : TransitionSystem RateRun ClockRequest :=
  .ofNext (RateRun.Sound base) rateNext

/-- `sysclk_setup` finds the same crystal each time. -/
def KeepsCrystal (base : ℕ) (request : ClockRequest) (_ : RateRun) : Prop :=
  ∀ port, request = .setup port → port.baseClk = base

variable {base : ℕ} {settings : ClockSettings} {last : ClockSetting}

/-! ### The answers -/

/-- A divider that fits is from 1 to 64. -/
theorem div_of_dividerFits {clk : ℕ} (hfits : DividerFits clk) :
    0 < clk ∧ 1 ≤ iclk / clk ∧ iclk / clk ≤ 64 := by
  obtain ⟨hleast, hmost⟩ := hfits
  have hpos : 0 < clk := by omega
  have hbelow : iclk / clk < 65 := (Nat.div_lt_iff_lt_mul hpos).mpr (by unfold iclk; omega)
  exact ⟨hpos, (Nat.le_div_iff_mul_le hpos).mpr (by omega), by omega⟩

/-- The oscillator cannot be divided down further without falling below the request. -/
theorem isLeast_of_dividerFits {clk : ℕ} (hfits : DividerFits clk) :
    IsLeast {freq | clk ≤ freq ∧ ∃ d < 64, freq = iclk / (d + 1)} (iclk / (iclk / clk)) := by
  obtain ⟨hpos, hone, hmost⟩ := div_of_dividerFits hfits
  constructor
  · refine ⟨?_, iclk / clk - 1, by omega, by rw [Nat.sub_add_cancel hone]⟩
    rw [Nat.le_div_iff_mul_le hone]
    exact Nat.mul_div_le iclk clk
  · rintro freq ⟨hle, d, -, rfl⟩
    rw [Nat.le_div_iff_mul_le d.succ_pos, Nat.mul_comm, ← Nat.le_div_iff_mul_le hpos] at hle
    exact Nat.div_le_div_left hle d.succ_pos

theorem toNat_hfroscDivider_add_one {clk : ℕ} (hfits : DividerFits clk) :
    (hfroscDivider clk + 1).toNat = iclk / clk := by
  obtain ⟨hpos, hone, hmost⟩ := div_of_dividerFits hfits
  rw [hfroscDivider, (divider_and_mask_eq_iff hpos.ne').mpr hfits]
  rw [BitVec.sub_add_cancel, BitVec.toNat_ofNat]
  exact Nat.mod_eq_of_lt (by omega)

/-- A configuration is found exactly when there is a legal one. -/
theorem found_iff_exists_legal {clk : ℕ} (hleast : minPllOut ≤ clk) (hmost : clk ≤ maxPllOut) :
    (pllConfigForNearestFreq base clk).found = true ↔ ∃ r f q, LegalDividers base r f q := by
  refine ⟨exists_legal_of_found, fun hlegal => ?_⟩
  obtain ⟨r, f, q, n, -, -, hfound⟩ := pllSearch_mem_candidates hleast hmost hlegal
  rw [pllConfigForNearestFreq, hfound]
  rfl

theorem isAnswer_report (hdescribes : last.Describes base settings) {port : SysclkPort}
    (hport : settings.port? = some port) (hbase : port.baseClk = base) :
    last.IsAnswer base settings.report := by
  unfold ClockSettings.report
  cases last with
  | internal clk =>
      obtain ⟨htype, hdivider⟩ := hdescribes
      simp only [hport, htype, hdivider]
      refine ⟨rfl, fun hfits => ?_⟩
      rw [toNat_hfroscDivider_add_one hfits]
      exact isLeast_of_dividerFits hfits
  | external =>
      have htype : settings.clkType = .external := hdescribes
      simp only [hport, htype, hbase]
      rfl
  | pll clk =>
      obtain ⟨htype, hpllc, hleast, hmost⟩ := hdescribes
      simp only [hport, htype, hpllc, hbase]
      cases hfound : (pllConfigForNearestFreq base clk).found with
      | true =>
          have hlegal := (found_iff_exists_legal hleast hmost).mp hfound
          have hnearest := nearest_of_found hleast hmost hfound
          exact ⟨fun _ => ⟨rfl, hnearest⟩, fun hnone => absurd hlegal hnone⟩
      | false =>
          have hnone : ¬ ∃ r f q, LegalDividers base r f q := by
            rw [← found_iff_exists_legal hleast hmost, hfound]
            exact Bool.false_ne_true
          exact ⟨fun hlegal => absurd hlegal hnone, fun _ => rfl⟩

/-! ### The run -/

/-- A request for the PLL that returns has asked for a frequency in range. -/
theorem range_of_configure {a0 a1 : ℕ} {lockClears : Bool} {before after : StatusCode}
    {clock : ClockState} {result : StatusCode × ClockState} {port : SysclkPort}
    (hport : clock.port? = some port) (htype : ClockType.ofArg? a0 = some .pll)
    (hdone : (sysclkConfigureClk a0 a1 lockClears before after clock).outcome = .done result) :
    minPllOut ≤ a1 ∧ a1 ≤ maxPllOut := by
  by_contra hrange
  unfold sysclkConfigureClk at hdone
  rw [ClockOrder.withPort_of_port hport] at hdone
  simp only [htype] at hdone
  rw [Traced.outcome_bind_of_fault (outcome_sysclkSetPll_of_range hrange port _ _)] at hdone
  cases hdone

/-- The port is no part of a setting. -/
theorem ClockSetting.Describes.setPort (hdescribes : last.Describes base settings)
    (sysclk : Option SysclkPort) : last.Describes base { settings with sysclk := sysclk } := by
  cases last with
  | internal clk => exact hdescribes
  | external => exact hdescribes
  | pll clk => exact hdescribes

/-- Without a port nothing else is set. -/
theorem exists_serve_of_no_port (hport : settings.port? = none) (request : ClockRequest) :
    ∃ sysclk, settings.serve request = { settings with sysclk := sysclk } := by
  cases request with
  | setup port => exact ⟨_, rfl⟩
  | reset =>
      exact ⟨settings.sysclk, by simp only [ClockSettings.serve, ClockSettings.onPort, hport]⟩
  | config a0 a1 lockClears before after =>
      exact ⟨settings.sysclk, by simp only [ClockSettings.serve, ClockSettings.onPort, hport]⟩
  | disable =>
      exact ⟨settings.sysclk, by simp only [ClockSettings.serve, ClockSettings.onPort, hport]⟩

/-- A request that is served leaves the settings as it asks. -/
theorem describes_after {request : ClockRequest} {port : SysclkPort}
    (hdescribes : last.Describes base settings) (hport : settings.port? = some port)
    (hbase : port.baseClk = base)
    (hrange : ∀ a0 a1 lockClears before after, request = .config a0 a1 lockClears before after →
      ClockType.ofArg? a0 = some .pll → minPllOut ≤ a1 ∧ a1 ≤ maxPllOut) :
    (last.after request).Describes base (settings.serve request) := by
  cases request with
  | setup port => exact hdescribes.setPort _
  | reset =>
      simp only [ClockSettings.serve, ClockSettings.onPort, hport]
      rfl
  | config a0 a1 lockClears before after =>
      have hrange := hrange a0 a1 lockClears before after rfl
      simp only [ClockSettings.serve, ClockSettings.onPort, hport, ClockSetting.after]
      cases htype : ClockType.ofArg? a0 with
      | none => exact hdescribes
      | some type =>
          cases type with
          | internal => exact ⟨rfl, rfl⟩
          | external => rfl
          | pll => exact ⟨rfl, by rw [hbase], hrange htype⟩
  | disable =>
      simp only [ClockSettings.serve, ClockSettings.onPort, hport]
      cases last with
      | internal clk => exact ⟨hdescribes.1, rfl⟩
      | external => exact hdescribes
      | pll clk => exact hdescribes

/-- No request but a new set-up brings in a port. -/
theorem sameCrystal_serve {request : ClockRequest} (hcrystal : SameCrystal base settings)
    (hsetup : ∀ port, request = .setup port → port.baseClk = base) :
    SameCrystal base (settings.serve request) := by
  cases request with
  | setup port =>
      intro port' hport
      have hsome := (Option.filter_eq_some_iff.mp hport).1
      exact Option.some_inj.mp hsome ▸ hsetup port rfl
  | reset =>
      simp only [ClockSettings.serve, ClockSettings.onPort]
      split
      · exact hcrystal
      · exact hcrystal
  | config a0 a1 lockClears before after =>
      simp only [ClockSettings.serve, ClockSettings.onPort]
      split
      · exact hcrystal
      · split <;> exact hcrystal
  | disable =>
      simp only [ClockSettings.serve, ClockSettings.onPort]
      split
      · exact hcrystal
      · nofun

/-- The board stays as the last request has left it. -/
theorem RateRun.Sound.next {request : ClockRequest} {run run' : RateRun} (hsound : run.Sound base)
    (hcrystal : KeepsCrystal base request run) (hnext : rateNext request run = some run') :
    run'.Sound base := by
  obtain ⟨clock', hclock, rfl⟩ := Option.map_eq_some_iff.mp hnext
  have hsettings := settings_clockNext hclock
  have hsame : run.clock.port? = run.clock.settings.port? := rfl
  constructor
  · rw [hsettings, hsame]
    cases hport : run.clock.settings.port? with
    | none =>
        obtain ⟨sysclk, hserve⟩ := exists_serve_of_no_port hport request
        rw [hserve]
        exact hsound.describes.setPort sysclk
    | some port =>
        apply describes_after hsound.describes hport (hsound.crystal port hport)
        rintro a0 a1 lockClears before after rfl htype
        obtain ⟨value, hdone⟩ := exists_outcome_of_clockNext hclock
        have hopen : (run.clock.open (.config a0 a1 lockClears before after)).port? = some port :=
          hport
        exact range_of_configure hopen htype hdone
  · rw [hsettings]
    exact sameCrystal_serve hsound.crystal hcrystal

/-- In every run, `sysclk_get_clk` answers for the setting that was requested last, as long as the
driver has a port, and otherwise reports an error and no frequency. -/
theorem sysclk_get_clk_answers {run : RateRun}
    (hreach : (rateSystem base).Reachable (KeepsCrystal base) run) (p getclk : ℕ) :
    ∃ answer, (sysclkGetClk p getclk run.clock).outcome = .done (answer, run.clock) ∧
      (run.clock.port? ≠ none → run.last.IsAnswer base answer) ∧
      (run.clock.port? = none → answer = (errorInvalPointer, 0)) := by
  have hsound : run.Sound base :=
    hreach.invariant (RateRun.Sound base) (fun _ hinit => hinit)
      fun _ _ _ hsound hcrystal hnext => hsound.next hcrystal hnext
  refine ⟨_, outcome_sysclkGetClk p getclk run.clock, fun hport => ?_, fun hnone => ?_⟩
  · obtain ⟨port, hport⟩ := Option.ne_none_iff_exists'.mp hport
    exact isAnswer_report hsound.describes hport (hsound.crystal port hport)
  · have hport : run.clock.settings.port? = none := hnone
    simp only [ClockSettings.report, hport]

/-- After reset the oscillator is not divided. -/
def resetRun : RateRun := ⟨resetClock, .internal 72000000⟩

/-- The board runs from the crystal, and then from the oscillator, of which 16 MHz are asked. -/
theorem sysclk_get_clk_answers_two : ∃ run : RateRun,
    (∃ answer, (sysclkGetClk 0 0 run.clock).outcome = .done (answer, run.clock) ∧
      run.last.IsAnswer 16000000 answer) ∧ run.last = .internal 16000000 := by
  let labels : List ClockRequest :=
    [.config 1 16000000 true success success, .config 0 16000000 true success success]
  let run : RateRun := (TransitionSystem.run rateNext labels resetRun).get (by decide)
  have hstart : resetRun.Sound 16000000 := by
    constructor
    · exact ⟨rfl, by decide⟩
    · intro port hport
      cases hport
      rfl
  have hrun : TransitionSystem.run rateNext labels resetRun = some run := (Option.some_get _).symm
  have hreach : (rateSystem 16000000).Reachable (KeepsCrystal 16000000) run := by
    apply (TransitionSystem.Reachable.start hstart).run hrun
    rintro before _ hbefore _ - port rfl
    have hmem : ClockRequest.setup port ∈ labels := hbefore.subset (by simp)
    simp [labels] at hmem
  obtain ⟨answer, hreturns, hanswers, -⟩ := sysclk_get_clk_answers hreach 0 0
  exact ⟨run, ⟨answer, hreturns, hanswers (by decide)⟩, by decide⟩

end Cyancore.Driver
