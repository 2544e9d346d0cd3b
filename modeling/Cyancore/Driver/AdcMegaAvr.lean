/-
# The configuration of the megaAVR converter

`adc_config_pin` writes the multiplexer register ADMUX through three helpers, one after
the other: the reference is ORed in, an 8-bit resolution assigns the whole register, and
the pin is ORed in.  `adc_read` clears the reference and the resolution, and keeps the
pin.
-/

import Cyancore.Basic
import Cyancore.Math.Bits
import Mathlib.Data.List.Basic
import Mathlib.Tactic.IntervalCases

namespace Cyancore.Driver

open Cyancore.Math

/-- The boards that have the converter. -/
inductive AdcBoard
  | atmega328p
  | atmega2560
  deriving DecidableEq, Repr

/-- `N_ADC_PINS`. -/
def AdcBoard.nAdcPins : AdcBoard → ℕ
  | .atmega328p => 8
  | .atmega2560 => 16

/-- The registers of the converter. -/
structure AdcRegs where
  admux : BitVec 8
  adcsra : BitVec 8
  adcsrb : BitVec 8
  deriving DecidableEq, Repr

namespace AdcRegs

/-! ## Bit numbers -/

def adlarBit : ℕ := 5

def refsShift : ℕ := 6

def adateBit : ℕ := 5

def adscBit : ℕ := 6

/-- After a reset. -/
def cleared : AdcRegs := ⟨0, 0, 0⟩

/-- The value of the REFS field for `ref_ext`, `ref_avcc` and `ref_1_1`. -/
def refValue (vref : BitVec 8) : Option (BitVec 8) :=
  if vref = 0 then some 0 else if vref = 1 then some 1 else if vref = 2 then some 3 else none

/-- `_adc_config_vref`. -/
def configVref (vref : BitVec 8) (regs : AdcRegs) : StatusCode × AdcRegs :=
  match refValue vref with
  | some value => (StatusCode.success, { regs with admux := regs.admux ||| value <<< refsShift })
  | none => (StatusCode.errorFuncInvalArg, regs)

/-- `_adc_config_resolution`. -/
def configResolution (resolution : BitVec 8) (regs : AdcRegs) : StatusCode × AdcRegs :=
  if resolution = 8 then (StatusCode.success, { regs with admux := bit 8 adlarBit })
  else if resolution = 10 then (StatusCode.success, regs)
  else (StatusCode.errorFuncInvalArg, regs)

/-- `_adc_config_trigger`. -/
def configTrigger (trigger : BitVec 8) (regs : AdcRegs) : StatusCode × AdcRegs :=
  let status :=
    if 7 < trigger.toNat then StatusCode.errorFuncInvalArg else StatusCode.success
  let regs := { regs with adcsrb := regs.adcsrb ||| (trigger &&& 7) }
  (status, if trigger = 0 then regs else { regs with adcsra := setBit regs.adcsra adateBit })

/-- `_adc_start_conv`. -/
def startConv (regs : AdcRegs) : AdcRegs := { regs with adcsra := setBit regs.adcsra adscBit }

end AdcRegs

open AdcRegs in
/-- `adc_config_pin` on a port that is not NULL. -/
def adcConfigPin (board : AdcBoard) (pin trigger resolution vref : BitVec 8) (regs : AdcRegs) :
    StatusCode × AdcRegs :=
  if board.nAdcPins < pin.toNat then (StatusCode.errorFuncInvalArg, regs)
  else
    let reference := configVref vref regs
    let converted := configResolution resolution reference.2
    let triggered := configTrigger trigger converted.2
    (StatusCode.orAll [reference.1, converted.1, triggered.1],
      startConv { triggered.2 with admux := triggered.2.admux ||| pin })

/-- `adc_read` with the data registers of the hardware: the value and the registers. -/
def adcRead (adcl adch : BitVec 8) (regs : AdcRegs) : BitVec 16 × AdcRegs :=
  let value :=
    if regs.admux.getLsbD AdcRegs.adlarBit then adch.setWidth 16
    else adcl.setWidth 16 ||| adch.setWidth 16 <<< 8
  (value, { regs with
    admux := regs.admux &&& ~~~(3 <<< AdcRegs.refsShift ||| bit 8 AdcRegs.adlarBit) })

/-! ## What the registers say -/

namespace AdcRegs

/-- The MUX field, below ADLAR. -/
def mux (regs : AdcRegs) : BitVec 8 := regs.admux &&& 0x1f

/-- The REFS field. -/
def refs (regs : AdcRegs) : BitVec 8 := regs.admux >>> refsShift

/-- The result is left adjusted, to be read as eight bits. -/
def adlar (regs : AdcRegs) : Bool := regs.admux.getLsbD adlarBit

/-- The ADTS field. -/
def adts (regs : AdcRegs) : BitVec 8 := regs.adcsrb &&& 7

/-- The registers say what a call asked for. -/
structure AsAsked (pin trigger resolution vref : BitVec 8) (regs : AdcRegs) : Prop where
  mux_eq : regs.mux = pin
  refs_eq : some regs.refs = refValue vref
  adlar_iff : regs.adlar = true ↔ resolution = 8
  adts_eq : regs.adts = trigger

/-- The registers before a call leave room for what it asks for. -/
def Leaves (pin trigger resolution vref : BitVec 8) (regs : AdcRegs) : Prop :=
  regs.adts ||| trigger = trigger ∧
    (resolution = 8 ∧ vref = 0 ∨
      resolution = 10 ∧ regs.adlar = false ∧ regs.mux ||| pin = pin ∧
        ∀ value ∈ refValue vref, regs.refs ||| value = value)

end AdcRegs

/-! ## Sequences of calls -/

/-- A call of the driver. -/
inductive AdcOp
  | configPin (pin trigger resolution vref : BitVec 8)
  | read (adcl adch : BitVec 8)
  deriving DecidableEq, Repr

/-- The registers after a call. -/
def AdcOp.apply (board : AdcBoard) (regs : AdcRegs) : AdcOp → AdcRegs
  | .configPin pin trigger resolution vref =>
      (adcConfigPin board pin trigger resolution vref regs).2
  | .read adcl adch => (adcRead adcl adch regs).2

/-- The registers after the calls, from cleared ones. -/
def adcRun (board : AdcBoard) (ops : List AdcOp) : AdcRegs :=
  ops.foldl (AdcOp.apply board) .cleared

namespace AdcRegs

variable {board : AdcBoard} {pin trigger resolution vref value : BitVec 8} {regs : AdcRegs}

/-- A pin is added to the MUX field. -/
theorem mux_or (word : BitVec 8) (hpin : pin.toNat < 32) :
    (word ||| pin) &&& 0x1f = word &&& 0x1f ||| pin := by
  have hhigh {i : ℕ} (hi : i < 8) (hn : 5 ≤ i) : pin[i] = false :=
    getElem_eq_false_of_lt (n := 5) hpin hi hn
  ext i hi
  interval_cases i <;> simp [hhigh]

/-- A reference is added to the REFS field. -/
theorem refs_or (word : BitVec 8) (hvalue : value.toNat < 4) :
    (word ||| value <<< refsShift) >>> refsShift = word >>> refsShift ||| value := by
  have hhigh {i : ℕ} (hi : i < 8) (hn : 2 ≤ i) : value[i] = false :=
    getElem_eq_false_of_lt (n := 2) hvalue hi hn
  ext i hi
  interval_cases i <;> simp [refsShift, hhigh]

/-- A pin has no bit above the MUX field. -/
theorem shiftRight_or_pin (word : BitVec 8) (hpin : pin.toNat < 32) :
    (word ||| pin) >>> refsShift = word >>> refsShift := by
  have hhigh {i : ℕ} (hi : i < 8) (hn : 5 ≤ i) : pin[i] = false :=
    getElem_eq_false_of_lt (n := 5) hpin hi hn
  ext i hi
  interval_cases i <;> simp [refsShift, hhigh]

/-- A reference has no bit in the MUX field. -/
theorem mux_or_reference (word value : BitVec 8) :
    (word ||| value <<< refsShift) &&& 0x1f = word &&& 0x1f := by
  ext i hi
  interval_cases i <;> simp [refsShift]

/-- The values of the references fit their field. -/
theorem toNat_refValue_lt (hvalue : refValue vref = some value) : value.toNat < 4 := by
  rw [refValue] at hvalue
  split_ifs at hvalue <;> · cases hvalue; decide

/-- The pins of a board fit their field. -/
theorem toNat_pin_lt (hpin : pin.toNat ≤ board.nAdcPins) : pin.toNat < 32 := by
  cases board <;> exact Nat.lt_of_le_of_lt hpin (by decide)

/-- A call that returns success was given values that all its helpers accept. -/
theorem accepted_of_success
    (hsuccess : (adcConfigPin board pin trigger resolution vref regs).1 = StatusCode.success) :
    pin.toNat ≤ board.nAdcPins ∧ (∃ value, refValue vref = some value) ∧
      (resolution = 8 ∨ resolution = 10) ∧ trigger.toNat ≤ 7 := by
  rw [adcConfigPin] at hsuccess
  split at hsuccess
  · cases hsuccess
  · rename_i hpin
    rw [StatusCode.orAll_eq_success_iff] at hsuccess
    simp only [List.mem_cons, List.not_mem_nil, or_false, forall_eq_or_imp, forall_eq]
      at hsuccess
    obtain ⟨hreference, hconverted, htriggered⟩ := hsuccess
    refine ⟨Nat.le_of_not_lt hpin, ?_, ?_, ?_⟩
    · rw [configVref] at hreference
      cases hvalue : refValue vref with
      | none => rw [hvalue] at hreference; cases hreference
      | some value => exact ⟨value, rfl⟩
    · by_contra hneither
      obtain ⟨height, hten⟩ := not_or.mp hneither
      rw [configResolution, if_neg height, if_neg hten] at hconverted
      cases hconverted
    · by_contra hlarge
      simp only [configTrigger, if_pos (Nat.lt_of_not_le hlarge)] at htriggered
      cases htriggered

/-- An 8-bit configuration leaves nothing of what was there, nor of the reference. -/
theorem admux_eight (hpin : pin.toNat ≤ board.nAdcPins) :
    (adcConfigPin board pin trigger 8 vref regs).2.admux = bit 8 adlarBit ||| pin := by
  rw [adcConfigPin, if_neg (Nat.not_lt.mpr hpin)]
  simp only [configResolution, configTrigger, startConv, if_true]
  split <;> rfl

/-- A 10-bit configuration adds to what was there. -/
theorem admux_ten (hpin : pin.toNat ≤ board.nAdcPins) (hvalue : refValue vref = some value) :
    (adcConfigPin board pin trigger 10 vref regs).2.admux =
      regs.admux ||| value <<< refsShift ||| pin := by
  rw [adcConfigPin, if_neg (Nat.not_lt.mpr hpin)]
  simp only [configResolution, configTrigger, startConv, configVref, hvalue]
  split <;> rfl

/-- A trigger is added to what was there. -/
theorem adts_configPin (hpin : pin.toNat ≤ board.nAdcPins) (htrigger : trigger.toNat ≤ 7) :
    (adcConfigPin board pin trigger resolution vref regs).2.adts = regs.adts ||| trigger := by
  have hadcsrb : (adcConfigPin board pin trigger resolution vref regs).2.adcsrb =
      regs.adcsrb ||| (trigger &&& 7) := by
    rw [adcConfigPin, if_neg (Nat.not_lt.mpr hpin)]
    simp only [configResolution, configTrigger, startConv, configVref]
    split_ifs <;> cases refValue vref <;> rfl
  have hhigh {i : ℕ} (hi : i < 8) (hn : 3 ≤ i) : trigger[i] = false :=
    getElem_eq_false_of_lt (n := 3) (Nat.lt_succ_of_le htrigger) hi hn
  rw [adts, adts, hadcsrb]
  ext i hi
  interval_cases i <;> simp [hhigh]

/-- After an 8-bit configuration the registers say what was asked for if nothing but the
external reference was asked for and no trigger bit was left over. -/
theorem asAsked_eight_iff (hpin : pin.toNat ≤ board.nAdcPins)
    (htrigger : trigger.toNat ≤ 7) :
    (adcConfigPin board pin trigger 8 vref regs).2.AsAsked pin trigger 8 vref ↔
      regs.adts ||| trigger = trigger ∧ vref = 0 := by
  have hadmux := @admux_eight board pin trigger vref regs hpin
  have hfits := toNat_pin_lt hpin
  have hmux : (adcConfigPin board pin trigger 8 vref regs).2.mux = pin := by
    rw [mux, hadmux, mux_or _ hfits]
    exact BitVec.zero_or
  have hrefs : (adcConfigPin board pin trigger 8 vref regs).2.refs = 0 := by
    rw [refs, hadmux, shiftRight_or_pin _ hfits]
    rfl
  have hadlar : (adcConfigPin board pin trigger 8 vref regs).2.adlar = true := by
    rw [adlar, hadmux, BitVec.getLsbD_or]
    rfl
  constructor
  · intro hasked
    refine ⟨(adts_configPin hpin htrigger).symm.trans hasked.adts_eq, ?_⟩
    have hvref := hasked.refs_eq
    rw [hrefs, refValue] at hvref
    split_ifs at hvref with hzero
    · exact hzero
    all_goals exact absurd hvref (by decide)
  · rintro ⟨hadts, rfl⟩
    exact ⟨hmux, by rw [hrefs]; rfl, iff_of_true hadlar rfl,
      (adts_configPin hpin htrigger).trans hadts⟩

/-- After a 10-bit configuration the registers say what was asked for if what was there before
is covered by it. -/
theorem asAsked_ten_iff (hpin : pin.toNat ≤ board.nAdcPins) (hvalue : refValue vref = some value)
    (htrigger : trigger.toNat ≤ 7) :
    (adcConfigPin board pin trigger 10 vref regs).2.AsAsked pin trigger 10 vref ↔
      regs.adts ||| trigger = trigger ∧ regs.adlar = false ∧ regs.mux ||| pin = pin ∧
        regs.refs ||| value = value := by
  have hadmux := @admux_ten board pin trigger vref value regs hpin hvalue
  have hfits := toNat_pin_lt hpin
  have hmux : (adcConfigPin board pin trigger 10 vref regs).2.mux = regs.mux ||| pin := by
    rw [mux, hadmux, mux_or _ hfits, mux_or_reference, mux]
  have hrefs : (adcConfigPin board pin trigger 10 vref regs).2.refs = regs.refs ||| value := by
    rw [refs, hadmux, shiftRight_or_pin _ hfits, refs_or _ (toNat_refValue_lt hvalue), refs]
  have hadlar : (adcConfigPin board pin trigger 10 vref regs).2.adlar = regs.adlar := by
    have hbit : pin.getLsbD adlarBit = false :=
      Nat.testBit_lt_two_pow (i := 5) hfits
    rw [adlar, hadmux, BitVec.getLsbD_or, BitVec.getLsbD_or, hbit, adlar]
    simp [adlarBit, refsShift]
  constructor
  · intro hasked
    refine ⟨(adts_configPin hpin htrigger).symm.trans hasked.adts_eq, ?_,
      hmux.symm.trans hasked.mux_eq, ?_⟩
    · have hadjusted := hasked.adlar_iff
      rw [hadlar] at hadjusted
      exact Bool.eq_false_iff.mpr fun hset => absurd (hadjusted.mp hset) (by decide)
    · have hvref := hasked.refs_eq
      rw [hrefs, hvalue] at hvref
      exact Option.some.inj hvref
  · rintro ⟨hadts, hclear, hpins, hreference⟩
    refine ⟨hmux.trans hpins, by rw [hrefs, hreference, hvalue], ?_,
      (adts_configPin hpin htrigger).trans hadts⟩
    rw [hadlar, hclear]
    decide

end AdcRegs

/-- A call that returns success after any sequence of calls has configured what was asked for
exactly when the registers left room for it. -/
theorem adc_asAsked_iff (board : AdcBoard) (ops : List AdcOp)
    (pin trigger resolution vref : BitVec 8) (hpin : pin.toNat < board.nAdcPins)
    (hsuccess : (adcConfigPin board pin trigger resolution vref (adcRun board ops)).1 =
      StatusCode.success) :
    (adcConfigPin board pin trigger resolution vref (adcRun board ops)).2.AsAsked
        pin trigger resolution vref ↔
      (adcRun board ops).Leaves pin trigger resolution vref := by
  obtain ⟨-, ⟨value, hvalue⟩, hresolution, htrigger⟩ := AdcRegs.accepted_of_success hsuccess
  have hfits := Nat.le_of_lt hpin
  rcases hresolution with rfl | rfl
  · rw [AdcRegs.asAsked_eight_iff hfits htrigger, AdcRegs.Leaves]
    simp
  · rw [AdcRegs.asAsked_ten_iff hfits hvalue htrigger, AdcRegs.Leaves, hvalue]
    simp

/-- Pin 3 with ten bits against AVCC, after a conversion of pin 1 was read. -/
theorem adc_asAsked_second :
    (adcConfigPin .atmega328p 3 0 10 1
        (adcRun .atmega328p [.configPin 1 0 10 1, .read 0 0])).2.AsAsked 3 0 10 1 := by
  refine (adc_asAsked_iff .atmega328p [.configPin 1 0 10 1, .read 0 0] 3 0 10 1
    (by decide) (by decide)).mpr ⟨by decide, ?_⟩
  exact .inr ⟨rfl, rfl, by decide, by decide⟩

/-- Eight bits against AVCC select the external reference, and pin 1 is still selected when
pin 2 is asked for after the conversion was read. -/
theorem adc_not_asAsked :
    ((adcConfigPin .atmega328p 1 0 8 1 (adcRun .atmega328p [])).1 = StatusCode.success ∧
      ¬ (adcConfigPin .atmega328p 1 0 8 1 (adcRun .atmega328p [])).2.AsAsked 1 0 8 1 ∧
      (adcConfigPin .atmega328p 1 0 8 1 (adcRun .atmega328p [])).2.refs = 0) ∧
    (adcConfigPin .atmega328p 2 0 10 1
        (adcRun .atmega328p [.configPin 1 0 10 1, .read 0 0])).1 = StatusCode.success ∧
      ¬ (adcConfigPin .atmega328p 2 0 10 1
        (adcRun .atmega328p [.configPin 1 0 10 1, .read 0 0])).2.AsAsked 2 0 10 1 ∧
      (adcConfigPin .atmega328p 2 0 10 1
        (adcRun .atmega328p [.configPin 1 0 10 1, .read 0 0])).2.mux = 3 := by
  refine ⟨⟨by decide, fun hasked => ?_, by decide⟩, by decide, fun hasked => ?_, by decide⟩
  · exact absurd hasked.refs_eq (by decide)
  · exact absurd hasked.mux_eq (by decide)

end Cyancore.Driver
