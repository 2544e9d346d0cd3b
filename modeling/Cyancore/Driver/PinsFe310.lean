/-
# The registers behind the pins of the FE310

Each function of a pin has a bit in one of the registers of the port, and a call on a pin
reads these registers, changes the pin's bit and writes them back.  So a client has its pin to
itself: whatever is called on other pins in between, the pin is as its own calls leave it.

There is one exception.  `gpio_enable_alt_io` shifts the number of the function to the place of
the pin, whatever that number is.  So from two on it also selects function 1 for pins further up;
and selecting function 0 does not take function 1 back.
-/

import Cyancore.Driver.Gpio
import Cyancore.Math.Registers

namespace Cyancore.Gpio.Fe310

open Cyancore.Math StatusCode

/-! ## The driver -/

/-- The registers of a port that the driver uses. -/
inductive PinRegister
  | inputVal
  | inputEn
  | outputEn
  | outputVal
  | pue
  | iofEn
  | iofSel
  deriving DecidableEq, Repr

namespace PinRegister

/-- `INPUTVAL_OFFSET` and the others. -/
def offset : PinRegister → ℕ
  | inputVal => 0x00
  | inputEn => 0x04
  | outputEn => 0x08
  | outputVal => 0x0c
  | pue => 0x10
  | iofEn => 0x38
  | iofSel => 0x3c

/-- A byte address behind all registers of a port. -/
def size : ℕ := 0x4c

theorem offset_injective : Function.Injective offset := by
  intro first second
  cases first <;> cases second <;> decide

theorem offset_lt (r : PinRegister) : r.offset < size := by
  cases r <;> decide

end PinRegister

open PinRegister

/-- Evaluate `1 << port->pin` on the way. -/
def onPin {α : Type} (port : GpioPort) (rest : α) : Outcome GpioFault α :=
  if port.pin.toNat < 32 then .done rest else .fault .shiftTooFar

/-- `MMIO32(port->pbaddr + offset)`, read, changed and written back. -/
def onRegister (port : GpioPort) (r : PinRegister) (change : BitVec 32 → BitVec 32)
    (mmio : Registers 32) : Registers 32 :=
  mmio.modify (port.pbaddr + r.offset) change

/-- `gpio_pin_mode`. -/
def gpioPinMode (port : GpioPort) (mode : GpioMode) (mmio : Registers 32) :
    Outcome GpioFault (StatusCode × Registers 32) :=
  onPin port <|
    let pin := port.pin.toNat
    let mmio := onRegister port outputEn (clearBit · pin) mmio
    let mmio := onRegister port inputEn (clearBit · pin) mmio
    let mmio := onRegister port pue (clearBit · pin) mmio
    match mode with
    | .out => (success, onRegister port outputEn (setBit · pin) mmio)
    | .pullUp => (success, onRegister port pue (setBit · pin) mmio)
    | .input => (success, onRegister port inputEn (setBit · pin) mmio)
    | .other _ => (errorFuncInvalArg, mmio)

/-- `gpio_pin_set`. -/
def gpioPinSet (port : GpioPort) (mmio : Registers 32) :
    Outcome GpioFault (StatusCode × Registers 32) :=
  onPin port (success, onRegister port outputVal (setBit · port.pin.toNat) mmio)

/-- `gpio_pin_clear`. -/
def gpioPinClear (port : GpioPort) (mmio : Registers 32) :
    Outcome GpioFault (StatusCode × Registers 32) :=
  onPin port (success, onRegister port outputVal (clearBit · port.pin.toNat) mmio)

/-- `gpio_pin_toggle`. -/
def gpioPinToggle (port : GpioPort) (mmio : Registers 32) :
    Outcome GpioFault (StatusCode × Registers 32) :=
  onPin port (success, onRegister port outputVal (· ^^^ bit 32 port.pin.toNat) mmio)

/-- `gpio_pin_read`. -/
def gpioPinRead (port : GpioPort) (mmio : Registers 32) : Outcome GpioFault Bool :=
  onPin port <|
    decide (mmio (port.pbaddr + inputVal.offset) &&& bit 32 port.pin.toNat ≠ 0)

/-- `gpio_enable_alt_io`. -/
def gpioEnableAltIo (port : GpioPort) (altIo : BitVec 32) (mmio : Registers 32) :
    Outcome GpioFault (StatusCode × Registers 32) :=
  onPin port <|
    let pin := port.pin.toNat
    let mmio := onRegister port iofSel (· ||| altIo <<< pin) mmio
    (success, onRegister port iofEn (setBit · pin) mmio)

/-- `gpio_disable_alt_io`. -/
def gpioDisableAltIo (port : GpioPort) (mmio : Registers 32) :
    Outcome GpioFault (StatusCode × Registers 32) :=
  onPin port <|
    let pin := port.pin.toNat
    let mmio := onRegister port iofEn (clearBit · pin) mmio
    (success, onRegister port iofSel (clearBit · pin) mmio)

/-! ## Calls on pins -/

/-- What is asked of a pin. -/
inductive PinOp
  | mode (mode : GpioMode)
  | set
  | clear
  | toggle
  | enableAltIo (altIo : BitVec 32)
  | disableAltIo
  deriving DecidableEq, Repr

/-- A call on the pin of a handle. -/
structure PinCall where
  port : GpioPort
  op : PinOp
  deriving DecidableEq, Repr

/-- Make the call. -/
def PinCall.make (call : PinCall) (mmio : Registers 32) :
    Outcome GpioFault (Registers 32) := do
  let (_, mmio) ← match call.op with
    | .mode mode => gpioPinMode call.port mode mmio
    | .set => gpioPinSet call.port mmio
    | .clear => gpioPinClear call.port mmio
    | .toggle => gpioPinToggle call.port mmio
    | .enableAltIo altIo => gpioEnableAltIo call.port altIo mmio
    | .disableAltIo => gpioDisableAltIo call.port mmio
  .done mmio

/-- The call names the pin `i` of the port at `base`. -/
def PinCall.Names (call : PinCall) (base i : ℕ) : Prop :=
  call.port.pbaddr = base ∧ call.port.pin.toNat = i

instance (call : PinCall) (base i : ℕ) : Decidable (call.Names base i) :=
  inferInstanceAs (Decidable (_ ∧ _))

/-- The number of the function that is shifted to the pin. -/
def PinOp.selected : PinOp → BitVec 32
  | .enableAltIo altIo => altIo
  | _ => 0

/-- The call selects function 1 for the pin `i` too, which is further up. -/
def PinCall.Spills (call : PinCall) (base i : ℕ) : Prop :=
  call.port.pbaddr = base ∧ call.port.pin.toNat < i ∧
    (call.op.selected <<< call.port.pin.toNat).getLsbD i = true

instance (call : PinCall) (base i : ℕ) : Decidable (call.Spills base i) :=
  inferInstanceAs (Decidable (_ ∧ _))

/-- The pin exists. -/
def PinCall.Fits (call : PinCall) : Prop := call.port.pin.toNat < 32

/-- The port of the call is the one at `base` or has its registers elsewhere. -/
def PinCall.Apart (call : PinCall) (base : ℕ) : Prop :=
  call.port.pbaddr = base ∨ base + size ≤ call.port.pbaddr ∨ call.port.pbaddr + size ≤ base

/-! ## A pin by itself -/

/-- The bits of a pin. -/
abbrev Pin := PinRegister → Bool

/-- The pin `i` of the port at `base`. -/
def pinOf (base i : ℕ) (mmio : Registers 32) : Pin := mmio.lane offset base i

/-- What a pin does when it is asked. -/
def Pin.act (pin : Pin) : PinOp → Pin
  | .mode mode =>
      Function.update (Function.update (Function.update pin
        outputEn (decide (mode = .out))) inputEn (decide (mode = .input)))
        pue (decide (mode = .pullUp))
  | .set => Function.update pin outputVal true
  | .clear => Function.update pin outputVal false
  | .toggle => Function.update pin outputVal (!pin outputVal)
  | .enableAltIo altIo =>
      Function.update (Function.update pin iofSel (pin iofSel || altIo.getLsbD 0)) iofEn true
  | .disableAltIo => Function.update (Function.update pin iofEn false) iofSel false

/-- What a call does to the pin `i`. -/
def PinCall.effect (base i : ℕ) (pin : Pin) (call : PinCall) : Pin :=
  if call.Names base i then pin.act call.op
  else if call.Spills base i then Function.update pin iofSel true
  else pin

variable {mmio mmio' : Registers 32} {call : PinCall} {base i : ℕ}

/-- The edits that a call makes. -/
def PinOp.edits (pin : ℕ) : PinOp → List (PinRegister × (BitVec 32 → BitVec 32))
  | .mode asked =>
      [(outputEn, (clearBit · pin)), (inputEn, (clearBit · pin)), (pue, (clearBit · pin))] ++
        match asked with
        | .out => [(outputEn, (setBit · pin))]
        | .pullUp => [(pue, (setBit · pin))]
        | .input => [(inputEn, (setBit · pin))]
        | .other _ => []
  | .set => [(outputVal, (setBit · pin))]
  | .clear => [(outputVal, (clearBit · pin))]
  | .toggle => [(outputVal, (· ^^^ bit 32 pin))]
  | .enableAltIo altIo => [(iofSel, (· ||| altIo <<< pin)), (iofEn, (setBit · pin))]
  | .disableAltIo => [(iofEn, (clearBit · pin)), (iofSel, (clearBit · pin))]

namespace PinCall

/-- A call on a pin that exists makes its edits. -/
theorem make_eq (hpin : call.port.pin.toNat < 32) (mmio : Registers 32) :
    call.make mmio =
      .done (mmio.edit offset call.port.pbaddr (call.op.edits call.port.pin.toNat)) := by
  obtain ⟨port, op⟩ := call
  have honPin : ∀ {α : Type} (rest : α), onPin port rest = .done rest := fun _ => if_pos hpin
  cases op with
  | mode mode =>
      simp only [make, gpioPinMode, honPin]
      cases mode <;> rfl
  | set | clear | toggle | enableAltIo | disableAltIo =>
      simp only [make, gpioPinSet, gpioPinClear, gpioPinToggle, gpioEnableAltIo, gpioDisableAltIo,
        honPin]
      rfl

/-- The edits keep the bits of pins that the call neither names nor spills over to. -/
theorem keeps_edits (hnames : ¬ call.Names call.port.pbaddr i)
    (hspills : ¬ call.Spills call.port.pbaddr i) :
    ∀ change ∈ call.op.edits call.port.pin.toNat, ∀ word,
      (change.2 word).getLsbD i = word.getLsbD i := by
  obtain ⟨port, op⟩ := call
  have hne : i ≠ port.pin.toNat := fun h => hnames ⟨rfl, h.symm⟩
  cases op with
  | mode mode => cases mode <;> simp [PinOp.edits, hne]
  | set | clear | toggle | disableAltIo => simp [PinOp.edits, hne]
  | enableAltIo altIo =>
      have hshifted : (altIo <<< port.pin.toNat).getLsbD i = false := by
        rcases Nat.lt_or_gt_of_ne hne with hbelow | habove
        · simp [hbelow]
        · exact Bool.eq_false_iff.mpr fun h => hspills ⟨rfl, habove, h⟩
      have hor : ∀ word : BitVec 32, (word ||| altIo <<< port.pin.toNat).getLsbD i =
          word.getLsbD i := by
        intro word
        rw [BitVec.getLsbD_or, hshifted, Bool.or_false]
      simp only [PinOp.edits, List.forall_mem_cons, hor]
      simp [hne]

/-- The edits of the pin do to it what the call asks for. -/
theorem pinOf_edit {op : PinOp} (hi : i < 32) :
    pinOf base i (mmio.edit offset base (op.edits i)) = (pinOf base i mmio).act op := by
  have hset : ∀ word : BitVec 32, (setBit word i).getLsbD i = true := by simp [hi]
  have hclear : ∀ word : BitVec 32, (clearBit word i).getLsbD i = false := by simp
  cases op with
  | mode mode =>
      cases mode <;>
      · simp only [pinOf, PinOp.edits, Registers.edit, List.cons_append, List.nil_append,
          List.foldl_cons, List.foldl_nil, Registers.lane_modify offset_injective, hset, hclear,
          Pin.act]
        funext r
        cases r <;> simp
  | set | clear | disableAltIo =>
      simp only [pinOf, PinOp.edits, Registers.edit, List.foldl_cons, List.foldl_nil,
        Registers.lane_modify offset_injective, hset, hclear, Pin.act]
  | toggle =>
      simp [pinOf, PinOp.edits, Registers.edit, Registers.lane_modify offset_injective, Pin.act,
        Registers.lane, hi]
  | enableAltIo altIo =>
      have hor : ∀ word : BitVec 32, (word ||| altIo <<< i).getLsbD i =
          (word.getLsbD i || altIo.getLsbD 0) := by
        intro word
        rw [BitVec.getLsbD_or, BitVec.getLsbD_shiftLeft, Nat.sub_self]
        simp [hi]
      simp only [pinOf, PinOp.edits, Registers.edit, List.foldl_cons, List.foldl_nil,
        Registers.lane_modify offset_injective, hset, hor, Pin.act]
      rfl

/-- The edits of a call that spills over select function 1. -/
theorem pinOf_edit_of_spills (hspills : call.Spills base i) :
    pinOf base i (mmio.edit offset base (call.op.edits call.port.pin.toNat)) =
      Function.update (pinOf base i mmio) iofSel true := by
  obtain ⟨port, op⟩ := call
  obtain ⟨-, habove, hbit⟩ := hspills
  cases op with
  | enableAltIo altIo =>
      have hor : ∀ word : BitVec 32, (word ||| altIo <<< port.pin.toNat).getLsbD i = true := by
        intro word
        rw [BitVec.getLsbD_or, show (altIo <<< port.pin.toNat).getLsbD i = true from hbit,
          Bool.or_true]
      have hkeeps : ∀ word : BitVec 32,
          (setBit word port.pin.toNat).getLsbD i = word.getLsbD i := by
        simp [(Nat.ne_of_lt habove).symm]
      simp only [pinOf, PinOp.edits, Registers.edit, List.foldl_cons, List.foldl_nil]
      rw [Registers.lane_modify_of_keeps (.inr hkeeps), Registers.lane_modify offset_injective, hor]
  | mode | set | clear | toggle | disableAltIo => simp [PinOp.selected] at hbit

/-- What a call does to a pin. -/
theorem pinOf_make (hfits : call.Fits) (hapart : call.Apart base)
    (hmake : call.make mmio = .done mmio') :
    pinOf base i mmio' = call.effect base i (pinOf base i mmio) := by
  rw [make_eq hfits] at hmake
  obtain rfl := Outcome.done.inj hmake
  rw [effect]
  by_cases hnames : call.Names base i
  · rw [if_pos hnames]
    obtain ⟨rfl, rfl⟩ := hnames
    exact pinOf_edit hfits
  · rw [if_neg hnames]
    by_cases hspills : call.Spills base i
    · rw [if_pos hspills, hspills.1]
      exact pinOf_edit_of_spills hspills
    · rw [if_neg hspills]
      apply Registers.lane_edit_of_keeps
      by_cases hbase : call.port.pbaddr = base
      · subst hbase
        exact .inr (keeps_edits hnames hspills)
      · refine .inl fun r r' => ?_
        have hr := offset_lt r
        have hr' := offset_lt r'
        have happart := hapart.resolve_left hbase
        omega

/-- A function number below two is one bit, which stays at the pin. -/
theorem not_spills_of_lt (hselected : call.op.selected < 2) :
    ¬ call.Spills base i := by
  rintro ⟨-, habove, hbit⟩
  have hlarge : 2 ^ (i - call.port.pin.toNat) ≤ call.op.selected.toNat := by
    rw [BitVec.getLsbD_shiftLeft, Bool.and_eq_true] at hbit
    exact Nat.ge_two_pow_of_testBit hbit.2
  have htwo : 2 ^ 1 ≤ 2 ^ (i - call.port.pin.toNat) :=
    Nat.pow_le_pow_right Nat.two_pos (Nat.sub_pos_of_lt habove)
  have hsmall : call.op.selected.toNat < 2 := hselected
  omega

end PinCall

/-- Reading a pin gives the level at its input. -/
theorem gpioPinRead_eq {port : GpioPort} (hpin : port.pin.toNat < 32) (mmio : Registers 32) :
    gpioPinRead port mmio = .done (pinOf port.pbaddr port.pin.toNat mmio inputVal) := by
  rw [gpioPinRead, onPin, if_pos hpin]
  congr 1
  exact Bool.eq_iff_iff.mpr (decide_eq_true_iff.trans (and_bit_ne_zero_iff _ _))

/-- However calls on the pins of any ports follow one another, every pin undergoes what the calls
that name it ask for and what spills over to it, and nothing else; a pin that nothing spills over to
is as its own calls alone would leave it; and no word but the registers of the ports changes. -/
theorem pins_separate {calls : List PinCall} (hfits : ∀ call ∈ calls, call.Fits)
    (mmio : Registers 32) :
    ∃ mmio', calls.foldlM (fun mmio call => call.make mmio) mmio = .done mmio' ∧
      (∀ base i, (∀ call ∈ calls, call.Apart base) →
        pinOf base i mmio' = calls.foldl (PinCall.effect base i) (pinOf base i mmio)) ∧
      (∀ base i, (∀ call ∈ calls, call.Apart base ∧ ¬ call.Spills base i) →
        pinOf base i mmio' = (calls.filter fun call => call.Names base i).foldl
          (fun pin call => pin.act call.op) (pinOf base i mmio)) ∧
      ∀ addr, (∀ call ∈ calls, ∀ r, addr ≠ call.port.pbaddr + offset r) →
        mmio' addr = mmio addr := by
  obtain ⟨mmio', hrun⟩ := exists_foldlM
    (fun call hcall mmio => ⟨_, PinCall.make_eq (hfits call hcall) mmio⟩) mmio
  have hmakes : ∀ base i, ∀ call ∈ calls, call.Apart base → ∀ before after,
      call.make before = .done after →
        pinOf base i after = call.effect base i (pinOf base i before) :=
    fun base i call hcall hapart before after hmake =>
      PinCall.pinOf_make (hfits call hcall) hapart hmake
  refine ⟨mmio', hrun, fun base i hapart => ?_, fun base i hapart => ?_, fun addr houtside => ?_⟩
  · have hview := @view_foldlM _ _ _ _ _ _ (PinCall.effect base i) (fun _ => true) calls
      (fun call hcall before after _ hmake =>
        hmakes base i call hcall (hapart call hcall) before after hmake)
      (fun _ _ _ _ hnever => absurd hnever (by decide)) mmio mmio' hrun
    rwa [List.filter_eq_self.mpr fun _ _ => rfl] at hview
  · refine view_foldlM (fun call hcall before after hnames hmake => ?_)
      (fun call hcall before after hnames hmake => ?_) hrun
    · rw [hmakes base i call hcall (hapart call hcall).1 before after hmake, PinCall.effect,
        if_pos (of_decide_eq_true hnames)]
    · rw [hmakes base i call hcall (hapart call hcall).1 before after hmake, PinCall.effect,
        if_neg (of_decide_eq_false hnames), if_neg (hapart call hcall).2]
  · have hview := @view_foldlM _ _ _ _ _ (fun mmio => mmio addr) (fun word _ => word)
      (fun _ => false) calls (fun _ _ _ _ h => by cases h)
      (fun call hcall before after _ hmake => by
        rw [PinCall.make_eq (hfits call hcall)] at hmake
        obtain rfl := Outcome.done.inj hmake
        exact Registers.edit_of_outside (houtside call hcall)) mmio mmio' hrun
    rwa [List.filter_eq_nil_iff.mpr (by simp)] at hview

/-- The handle of a pin of the FE310. -/
def fe310Pin (pin : BitVec 8) : GpioPort := ⟨0x10012000, 0, pin⟩

/-- Pin 5 is an output that is toggled while pin 17 is given to a function.  With function 2
instead of 1 the pin behind it is selected as well. -/
theorem pins_separate_two :
    (∃ mmio' : Registers 32,
      pinOf 0x10012000 5 mmio' = [.mode .out, .set, .toggle].foldl Pin.act (fun _ => false) ∧
        pinOf 0x10012000 17 mmio' = [.enableAltIo 1].foldl Pin.act (fun _ => false)) ∧
    ∃ mmio' : Registers 32, gpioEnableAltIo (fe310Pin 17) 2 (fun _ => 0) = .done (success, mmio') ∧
      pinOf 0x10012000 18 mmio' = Function.update (fun _ => false) iofSel true := by
  have hcleared : ∀ i, pinOf 0x10012000 i (fun _ => 0) = fun _ => false := fun i => by
    funext r
    simp [pinOf, Registers.lane]
  constructor
  · let calls : List PinCall := [⟨fe310Pin 5, .mode .out⟩, ⟨fe310Pin 5, .set⟩,
      ⟨fe310Pin 17, .enableAltIo 1⟩, ⟨fe310Pin 5, .toggle⟩]
    have hfits : ∀ call ∈ calls, call.Fits := by simp [calls, PinCall.Fits, fe310Pin]
    have hselected : ∀ call ∈ calls, call.op.selected < 2 := by simp [calls, PinOp.selected]
    have hapart : ∀ call ∈ calls, call.Apart 0x10012000 := by
      simp [calls, PinCall.Apart, fe310Pin]
    have hown : ∀ i, ∀ call ∈ calls, call.Apart 0x10012000 ∧ ¬ call.Spills 0x10012000 i :=
      fun i call hcall => ⟨hapart call hcall,
        PinCall.not_spills_of_lt (hselected call hcall)⟩
    obtain ⟨mmio', -, -, hpins, -⟩ := pins_separate hfits (fun _ => 0)
    refine ⟨mmio', ?_, ?_⟩
    · rw [hpins _ _ (hown 5), hcleared]
      simp [calls, PinCall.Names, fe310Pin]
    · rw [hpins _ _ (hown 17), hcleared]
      simp [calls, PinCall.Names, fe310Pin]
  · let calls : List PinCall := [⟨fe310Pin 17, .enableAltIo 2⟩]
    have hfits : ∀ call ∈ calls, call.Fits := by simp [calls, PinCall.Fits, fe310Pin]
    have hapart : ∀ call ∈ calls, call.Apart 0x10012000 := by
      simp [calls, PinCall.Apart, fe310Pin]
    obtain ⟨mmio', hrun, hpins, -⟩ := pins_separate hfits (fun _ => 0)
    have hone : gpioEnableAltIo (fe310Pin 17) 2 (fun _ => 0) = .done (success, mmio') := by
      cases hrun
      rfl
    refine ⟨mmio', hone, ?_⟩
    rw [hpins _ _ hapart, hcleared]
    rfl

end Cyancore.Gpio.Fe310
