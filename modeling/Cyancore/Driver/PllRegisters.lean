/-
# What the PLL registers encode

A configuration of the PLL reaches the hardware through the divider fields of `PLLCFG` and
through `PLLOUTDIV`.  The divider fields are cleared before they are set, so they hold the
new configuration whatever was there before.  The output divider is set without being
cleared: the bits of every earlier configuration stay.
-/

import Cyancore.Driver.PllOptimal
import Cyancore.Math.BitField

namespace Cyancore.Driver

open Cyancore.Math StatusCode

variable {conf : PllConfig} {clock : ClockState}

/-! ## What the hardware reads -/

namespace Prci

/-- `PLLR`. -/
def refDivider (prci : Prci) : ℕ := field prci.pllcfg pllr 3

/-- `PLLF`. -/
def multiplier (prci : Prci) : ℕ := field prci.pllcfg pllf 6

/-- `PLLQ`. -/
def outExponent (prci : Prci) : ℕ := field prci.pllcfg pllq 2

/-- `PLLOUTDIV`. -/
def outDivider (prci : Prci) : ℕ := field prci.plloutdiv 0 6

/-- `PLLOUTDIVBY1`. -/
def dividesByOne (prci : Prci) : Bool := prci.plloutdiv.getLsbD plloutdivby1

/-- The bits of `PLLCFG` that hold a divider. -/
def DividerBit (i : ℕ) : Prop := InField pllr 3 i ∨ InField pllf 6 i ∨ InField pllq 2 i

/-- The frequency that the registers ask for, in whole hertz after every stage. -/
def pllFrequency (prci : Prci) (base : ℕ) : ℕ :=
  let pllout :=
    base / (prci.refDivider + 1) * (2 * (prci.multiplier + 1)) / 2 ^ prci.outExponent
  if prci.dividesByOne then pllout else pllout / (2 * (prci.outDivider + 1))

end Prci

/-- The registers hold the configuration, and what is not part of it is as before. -/
structure Encodes (conf : PllConfig) (before after : Prci) : Prop where
  refDivider : after.refDivider = conf.r
  multiplier : after.multiplier = conf.f
  outExponent : after.outExponent = conf.q
  kept : ∀ i < 32, ¬ Prci.DividerBit i → after.pllcfg.getLsbD i = before.pllcfg.getLsbD i
  outDivider : conf.diven = true → after.outDivider = conf.n
  dividesByOne : after.dividesByOne = !conf.diven
  /-- The frequency is the one that `prci_pll_get_clk` reports.  The VCO frequency fits a
  word: `MAX_VCO` does, and no configuration is found above it. -/
  frequency : ∀ (port : SysclkPort) (old : ℕ) (clock : ClockState), clock.pllc = conf →
    port.baseClk / (conf.r + 1) * (2 * (conf.f + 1)) < 2 ^ 32 →
      (prciPllGetClk port old clock).outcome =
        .done ((success, after.pllFrequency port.baseClk), clock)

/-! ## `PLLCFG` -/

/-- The three fields are replaced one after the other. -/
theorem pllDividers_eq_putField (conf : PllConfig) (pllcfg : BitVec 32) :
    pllDividers conf pllcfg =
      putField (putField (putField pllcfg Prci.pllr 3 conf.r) Prci.pllf 6 conf.f)
        Prci.pllq 2 conf.q := by
  have hr : Prci.pllrMask = fieldMask 32 Prci.pllr 3 := rfl
  have hf : Prci.pllfMask = fieldMask 32 Prci.pllf 6 := rfl
  have hq : Prci.pllqMask = fieldMask 32 Prci.pllq 2 := rfl
  apply BitVec.eq_of_getLsbD_eq
  intro i hi
  rw [getLsbD_putField _ hi, getLsbD_putField _ hi, getLsbD_putField _ hi, pllDividers, hr, hf,
    hq]
  simp only [BitVec.getLsbD_or, BitVec.getLsbD_and, BitVec.getLsbD_not, getLsbD_fieldMask hi,
    BitVec.getLsbD_shiftLeft, BitVec.getLsbD_ofNat]
  by_cases hr' : InField Prci.pllr 3 i
  · have hf' : ¬ InField Prci.pllf 6 i := hr'.not_above (by decide)
    have hq' : ¬ InField Prci.pllq 2 i := hr'.not_above (by decide)
    simp [hr', hf', hq', hi]
  · by_cases hf' : InField Prci.pllf 6 i
    · have hq' : ¬ InField Prci.pllq 2 i := hf'.not_above (by decide)
      have hle : Prci.pllf ≤ i := hf'.1
      simp [hr', hf', hq', hi, hle, show i - Prci.pllf < 32 by omega]
    · by_cases hq' : InField Prci.pllq 2 i
      · have hle : Prci.pllq ≤ i := hq'.1
        simp [hr', hf', hq', hi, hle, show i - Prci.pllq < 32 by omega]
      · simp [hr', hf', hq', hi]

/-- The bits outside the three fields are kept. -/
theorem getLsbD_pllDividers (pllcfg : BitVec 32) {i : ℕ} (hi : i < 32)
    (hother : ¬ Prci.DividerBit i) :
    (pllDividers conf pllcfg).getLsbD i = pllcfg.getLsbD i := by
  simp only [Prci.DividerBit, not_or] at hother
  rw [pllDividers_eq_putField, getLsbD_putField _ hi, if_neg hother.2.2,
    getLsbD_putField _ hi, if_neg hother.2.1, getLsbD_putField _ hi, if_neg hother.1]

theorem field_pllDividers_r (pllcfg : BitVec 32) (hr : conf.r < 8) :
    field (pllDividers conf pllcfg) Prci.pllr 3 = conf.r := by
  rw [pllDividers_eq_putField,
    field_putField_of_disjoint _ (by decide) fun i hi => hi.not_above (by decide),
    field_putField_of_disjoint _ (by decide) fun i hi => hi.not_above (by decide),
    field_putField _ (by decide) hr]

theorem field_pllDividers_f (pllcfg : BitVec 32) (hf : conf.f < 64) :
    field (pllDividers conf pllcfg) Prci.pllf 6 = conf.f := by
  rw [pllDividers_eq_putField,
    field_putField_of_disjoint _ (by decide) fun i hi => hi.not_above (by decide),
    field_putField _ (by decide) hf]

theorem field_pllDividers_q (pllcfg : BitVec 32) (hq : conf.q < 4) :
    field (pllDividers conf pllcfg) Prci.pllq 2 = conf.q := by
  rw [pllDividers_eq_putField, field_putField _ (by decide) hq]

/-! ## `PLLOUTDIV` -/

/-- The word that `prci_pll_write_config` leaves in `PLLOUTDIV`. -/
def pllOutdivWord (conf : PllConfig) (plloutdiv : BitVec 32) : BitVec 32 :=
  if conf.diven then
    clearBit (plloutdiv ||| BitVec.ofNat 32 conf.n &&& Prci.plloutdivMask) Prci.plloutdivby1
  else
    setBit plloutdiv Prci.plloutdivby1

/-- The new divider joins the bits that were there. -/
theorem field_pllOutdivWord (plloutdiv : BitVec 32) (hdiven : conf.diven = true)
    (hn : conf.n < 64) :
    field (pllOutdivWord conf plloutdiv) 0 6 = field plloutdiv 0 6 ||| conf.n := by
  have hby1 : ¬ InField 0 6 Prci.plloutdivby1 := by decide
  have hmask : Prci.plloutdivMask = fieldMask 32 0 6 := rfl
  have hnew : field (BitVec.ofNat 32 conf.n &&& Prci.plloutdivMask) 0 6 = conf.n := by
    rw [hmask, field_and_fieldMask, field_ofNat (by decide) hn]
  rw [pllOutdivWord, if_pos hdiven, field_clearBit_of_not_inField _ hby1, field_or, hnew]

theorem getLsbD_pllOutdivWord (plloutdiv : BitVec 32) :
    (pllOutdivWord conf plloutdiv).getLsbD Prci.plloutdivby1 = !conf.diven := by
  have hby1 : Prci.plloutdivby1 < 32 := by decide
  rw [pllOutdivWord]
  cases conf.diven with
  | true => simp
  | false => simp [hby1]

/-! ## `prci_pll_write_config` -/

/-- The registers after a configuration that was found is written. -/
def writtenPrci (conf : PllConfig) (prci : Prci) : Prci :=
  { prci with
    plloutdiv := pllOutdivWord conf prci.plloutdiv
    pllcfg := pllDividers conf prci.pllcfg }

@[simp]
theorem settle_prci (clock : ClockState) : clock.settle.prci = clock.prci := by
  rw [ClockState.settle]
  split
  · rfl
  · rfl

theorem prciPllWriteConfig_of_found (hfound : conf.found = true) (clock : ClockState) :
    ∃ clock', (prciPllWriteConfig conf clock).outcome = .done (⟨⟩, clock') ∧
      clock'.prci = writtenPrci conf clock.prci := by
  simp only [prciPllWriteConfig, hfound, if_true]
  cases hdiven : conf.diven with
  | true => exact ⟨_, rfl, by simp [writtenPrci, pllOutdivWord, hdiven]⟩
  | false => exact ⟨_, rfl, by simp [writtenPrci, pllOutdivWord, hdiven]⟩

/-- The divider that the hardware uses is the new one together with the bits that were left. -/
theorem outDivider_writtenPrci (prci : Prci) (hdiven : conf.diven = true) (hn : conf.n < 64) :
    (writtenPrci conf prci).outDivider = prci.outDivider ||| conf.n :=
  field_pllOutdivWord prci.plloutdiv hdiven hn

/-- Registers that decode to a configuration ask for the frequency that it reports. -/
theorem pllFrequency_eq_output {prci : Prci} (hr : prci.refDivider = conf.r)
    (hf : prci.multiplier = conf.f) (hq : prci.outExponent = conf.q)
    (hdiven : conf.diven = true → prci.outDivider = conf.n)
    (hby1 : prci.dividesByOne = !conf.diven) {base : ℕ}
    (hvco : base / (conf.r + 1) * (2 * (conf.f + 1)) < 2 ^ 32) :
    conf.output base = prci.pllFrequency base := by
  rw [PllConfig.output, Prci.pllFrequency, hr, hf, hq, hby1, Nat.mod_eq_of_lt hvco]
  cases hconf : conf.diven with
  | true => simp [hdiven hconf]
  | false => simp

section Written

variable (hfound : conf.found = true) (hr : conf.r < 8) (hf : conf.f < 64) (hq : conf.q < 4)
  (hn : conf.n < 64)

include hfound hr hf hq hn

/-- All but the divider of the output is as it should be, and that one where nothing was left. -/
theorem encodes_writtenPrci_iff (prci : Prci) :
    Encodes conf prci (writtenPrci conf prci) ↔
      (conf.diven = true → prci.outDivider ||| conf.n = conf.n) := by
  constructor
  · intro hencodes hdiven
    rw [← outDivider_writtenPrci prci hdiven hn]
    exact hencodes.outDivider hdiven
  · intro hleft
    have hdivider (hdiven : conf.diven = true) : (writtenPrci conf prci).outDivider = conf.n := by
      rw [outDivider_writtenPrci prci hdiven hn, hleft hdiven]
    have hr' : (writtenPrci conf prci).refDivider = conf.r := field_pllDividers_r prci.pllcfg hr
    have hf' : (writtenPrci conf prci).multiplier = conf.f := field_pllDividers_f prci.pllcfg hf
    have hq' : (writtenPrci conf prci).outExponent = conf.q := field_pllDividers_q prci.pllcfg hq
    have hby1 : (writtenPrci conf prci).dividesByOne = !conf.diven :=
      getLsbD_pllOutdivWord prci.plloutdiv
    refine ⟨hr', hf', hq', fun i => getLsbD_pllDividers prci.pllcfg, hdivider, hby1, ?_⟩
    intro port old clock hconf hvco
    have hfound' : clock.pllc.found = true := by rw [hconf, hfound]
    rw [prciPllGetClk_of_found port old hfound', hconf,
      pllFrequency_eq_output hr' hf' hq' hdivider hby1 hvco]

/-- Whatever the registers held, writing a configuration makes them encode it exactly when it
needs no output divider or the divider that was there has no bit that the new one lacks. -/
theorem prciPllWriteConfig_encodes_iff (clock : ClockState) :
    (∃ clock', (prciPllWriteConfig conf clock).outcome = .done (⟨⟩, clock') ∧
        Encodes conf clock.prci clock'.prci) ↔
      (conf.diven = true → clock.prci.outDivider ||| conf.n = conf.n) := by
  obtain ⟨clock', hwrite, hprci⟩ := prciPllWriteConfig_of_found hfound clock
  rw [← encodes_writtenPrci_iff hfound hr hf hq hn, ← hprci]
  constructor
  · rintro ⟨clock'', hdone, hencodes⟩
    rw [hwrite] at hdone
    cases hdone
    exact hencodes
  · intro hencodes
    exact ⟨clock', hwrite, hencodes⟩

end Written

/-! ## Two configurations, one after the other -/

/-- A configuration with the output divider `2 * (n + 1)`. -/
def dividedConfig (n : ℕ) : PllConfig := ⟨true, 1, 31, 3, true, n⟩

/-- The clock with the divider of an earlier configuration. -/
def dividedClock (n : ℕ) : ClockState :=
  { tunedClock with prci := writtenPrci (dividedConfig n) tunedClock.prci }

/-- From divider 4 to divider 8 the bits only grow. -/
theorem prciPllWriteConfig_encodes_grown :
    ∃ clock', (prciPllWriteConfig (dividedConfig 3) (dividedClock 1)).outcome =
        .done (⟨⟩, clock') ∧ Encodes (dividedConfig 3) (dividedClock 1).prci clock'.prci :=
  (prciPllWriteConfig_encodes_iff rfl (by decide) (by decide) (by decide) (by decide)
    (dividedClock 1)).mpr (fun _ => by decide)

/-- From divider 4 to divider 6 the hardware divides by 8. -/
theorem prciPllWriteConfig_not_encodes :
    ∃ clock', (prciPllWriteConfig (dividedConfig 2) (dividedClock 1)).outcome =
        .done (⟨⟩, clock') ∧ clock'.prci.outDivider = 3 ∧
      ¬ Encodes (dividedConfig 2) (dividedClock 1).prci clock'.prci := by
  obtain ⟨clock', hwrite, hprci⟩ :=
    prciPllWriteConfig_of_found (show (dividedConfig 2).found = true from rfl) (dividedClock 1)
  have hdivider : clock'.prci.outDivider = 3 := by
    rw [hprci, outDivider_writtenPrci _ rfl (by decide)]
    decide
  refine ⟨clock', hwrite, hdivider, fun hencodes => ?_⟩
  have hnew := hencodes.outDivider rfl
  rw [hdivider] at hnew
  cases hnew

end Cyancore.Driver
