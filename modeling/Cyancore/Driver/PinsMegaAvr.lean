/-
# The registers behind the pins and ports of the megaAVR

A port of a megaAVR has three byte registers, and a pin a bit in each of them.  A call on a
pin changes that bit only.  A call on a port stores to the whole register at once; on a handle
that `gpio_port_alloc` has granted this is what the same call on each of the eight pins does.
-/

import Cyancore.Driver.GpioMegaAvr
import Cyancore.Math.Registers

namespace Cyancore.Gpio.MegaAvr

open Cyancore.Math StatusCode

/-! ## The driver -/

/-- The registers of a port. -/
inductive PortRegister
  | pin
  | ddr
  | port
  deriving DecidableEq, Repr

namespace PortRegister

/-- `PIN_OFFSET`, `DDR_OFFSET` and `PORT_OFFSET`. -/
def offset : PortRegister → ℕ
  | pin => 0x00
  | ddr => 0x01
  | port => 0x02

theorem offset_injective : Function.Injective offset := by
  intro first second
  cases first <;> cases second <;> decide

theorem offset_lt (r : PortRegister) : r.offset < 3 := by
  cases r <;> decide

end PortRegister

open PortRegister (offset offset_injective offset_lt)

/-- `STATUS_CHECK_POINTER` in front of a call. -/
def checked (port : Option GpioPort) (mmio : Registers 8)
    (rest : GpioPort → Outcome GpioFault (StatusCode × Registers 8)) :
    Outcome GpioFault (StatusCode × Registers 8) :=
  match port with
  | none => .done (errorInvalPointer, mmio)
  | some port => rest port

/-- Evaluate `1 << port->pin` on the way. -/
def onPin {α : Type} (port : GpioPort) (rest : α) : Outcome GpioFault α :=
  if port.pin.toNat < 16 then .done rest else .fault .shiftTooFar

/-- `MMIO8(port->pbaddr + offset)`, read, changed and written back. -/
def onRegister (port : GpioPort) (r : PortRegister) (change : BitVec 8 → BitVec 8)
    (mmio : Registers 8) : Registers 8 :=
  mmio.modify (port.pbaddr + offset r) change

/-- `^= (1 << port->pin)`. -/
def togglePin (pinID word : BitVec 8) : BitVec 8 :=
  (word.setWidth 16 ^^^ bit 16 pinID.toNat).setWidth 8

/-- `gpio_pin_mode`: a pull-up pin is an input as well. -/
def gpioPinMode (port : Option GpioPort) (mode : GpioMode) (mmio : Registers 8) :
    Outcome GpioFault (StatusCode × Registers 8) :=
  checked port mmio fun port =>
    match mode with
    | .out => onPin port (success, onRegister port .ddr (takePin 16 port.pin) mmio)
    | .pullUp =>
        onPin port <|
          let mmio := onRegister port .port (takePin 16 port.pin) mmio
          (success, onRegister port .ddr (releasePin 16 port.pin) mmio)
    | .input => onPin port (success, onRegister port .ddr (releasePin 16 port.pin) mmio)
    | .other _ => .done (errorFuncInvalArg, mmio)

/-- `gpio_pin_set`. -/
def gpioPinSet (port : Option GpioPort) (mmio : Registers 8) :
    Outcome GpioFault (StatusCode × Registers 8) :=
  checked port mmio fun port =>
    onPin port (success, onRegister port .port (takePin 16 port.pin) mmio)

/-- `gpio_pin_clear`. -/
def gpioPinClear (port : Option GpioPort) (mmio : Registers 8) :
    Outcome GpioFault (StatusCode × Registers 8) :=
  checked port mmio fun port =>
    onPin port (success, onRegister port .port (releasePin 16 port.pin) mmio)

/-- `gpio_pin_toggle`. -/
def gpioPinToggle (port : Option GpioPort) (mmio : Registers 8) :
    Outcome GpioFault (StatusCode × Registers 8) :=
  checked port mmio fun port =>
    onPin port (success, onRegister port .port (togglePin port.pin) mmio)

/-- `gpio_port_mode`, with the mask that the handle holds in place of a pin. -/
def gpioPortMode (port : Option GpioPort) (mode : GpioMode) (mmio : Registers 8) :
    Outcome GpioFault (StatusCode × Registers 8) :=
  checked port mmio fun port =>
    let value := port.pin
    match mode with
    | .out => .done (success, onRegister port .ddr (fun _ => value) mmio)
    | .pullUp =>
        let mmio := onRegister port .port (fun _ => value) mmio
        .done (success, onRegister port .ddr (· &&& ~~~value) mmio)
    | .input => .done (success, onRegister port .ddr (· &&& ~~~value) mmio)
    | .other _ => .done (errorFuncInvalArg, mmio)

/-- `gpio_port_write`. -/
def gpioPortWrite (port : Option GpioPort) (val : BitVec 64) (mmio : Registers 8) :
    Outcome GpioFault (StatusCode × Registers 8) :=
  checked port mmio fun port =>
    .done (success, onRegister port .port (fun _ => (val &&& 0xff).setWidth 8) mmio)

/-! ## Calls on pins and ports -/

/-- What is asked of a pin. -/
inductive PinOp
  | mode (asked : GpioMode)
  | set
  | clear
  | toggle
  deriving DecidableEq, Repr

/-- A call on the pin or on the port of a handle. -/
inductive PinCall
  | onPin (port : GpioPort) (op : PinOp)
  | portMode (port : GpioPort) (mode : GpioMode)
  | portWrite (port : GpioPort) (val : BitVec 64)
  deriving DecidableEq, Repr

/-- Make the call. -/
def PinCall.make (call : PinCall) (mmio : Registers 8) : Outcome GpioFault (Registers 8) := do
  let (_, mmio) ← match call with
    | .onPin port (.mode mode) => gpioPinMode (some port) mode mmio
    | .onPin port .set => gpioPinSet (some port) mmio
    | .onPin port .clear => gpioPinClear (some port) mmio
    | .onPin port .toggle => gpioPinToggle (some port) mmio
    | .portMode port mode => gpioPortMode (some port) mode mmio
    | .portWrite port val => gpioPortWrite (some port) val mmio
  .done mmio

/-- The handle of one pin of a port. -/
def pinHandle (port : GpioPort) (i : ℕ) : GpioPort := { port with pin := BitVec.ofNat 8 i }

/-- Calls on the eight pins of a port. -/
def eachPin (port : GpioPort) (op : ℕ → PinOp) : List PinCall :=
  (List.range 8).map fun i => .onPin (pinHandle port i) (op i)

/-- The same call on each of the eight pins; a value is written bit by bit. -/
def PinCall.pinwise : PinCall → List PinCall
  | .onPin port op => [.onPin port op]
  | .portMode port mode => eachPin port fun _ => .mode mode
  | .portWrite port val => eachPin port fun i => if val.getLsbD i then .set else .clear

namespace PinCall

/-- The handle that the call is given. -/
def port : PinCall → GpioPort
  | .onPin port _ | .portMode port _ | .portWrite port _ => port

/-- The handle names a pin whose bit an `int` has, or was granted for a whole port. -/
def Fits : PinCall → Prop
  | .onPin port _ => port.pin.toNat < 16
  | .portMode port _ => port.pin = wholePort
  | .portWrite _ _ => True

/-- The call is about the pin `i` of the port at `base`. -/
def Names (base i : ℕ) : PinCall → Prop
  | .onPin port _ => port.pbaddr = base ∧ port.pin.toNat = i
  | .portMode port _ | .portWrite port _ => port.pbaddr = base

instance (call : PinCall) (base i : ℕ) : Decidable (call.Names base i) :=
  match call with
  | .onPin port _ => inferInstanceAs (Decidable (port.pbaddr = base ∧ port.pin.toNat = i))
  | .portMode port _ => inferInstanceAs (Decidable (port.pbaddr = base))
  | .portWrite port _ => inferInstanceAs (Decidable (port.pbaddr = base))

/-- The port of the call is the one at `base` or has its three registers elsewhere. -/
def Apart (call : PinCall) (base : ℕ) : Prop :=
  call.port.pbaddr = base ∨ base + 3 ≤ call.port.pbaddr ∨ call.port.pbaddr + 3 ≤ base

/-- What the call asks of the pin `i`. -/
def asks (i : ℕ) : PinCall → PinOp
  | .onPin _ op => op
  | .portMode _ mode => .mode mode
  | .portWrite _ val => if val.getLsbD i then .set else .clear

end PinCall

/-! ## A pin by itself -/

/-- The bits of a pin. -/
abbrev Pin := PortRegister → Bool

/-- The pin `i` of the port at `base`. -/
def pinOf (base i : ℕ) (mmio : Registers 8) : Pin := mmio.lane offset base i

/-- What a pin does when it is asked. -/
def Pin.act (pin : Pin) : PinOp → Pin
  | .mode .out => Function.update pin .ddr true
  | .mode .pullUp => Function.update (Function.update pin .port true) .ddr false
  | .mode .input => Function.update pin .ddr false
  | .mode (.other _) => pin
  | .set => Function.update pin .port true
  | .clear => Function.update pin .port false
  | .toggle => Function.update pin .port (!pin .port)

variable {mmio mmio' : Registers 8} {call : PinCall} {base i : ℕ}

/-- The edits that a call on a pin makes. -/
def PinOp.edits (pinID : BitVec 8) : PinOp → List (PortRegister × (BitVec 8 → BitVec 8))
  | .mode .out => [(.ddr, takePin 16 pinID)]
  | .mode .pullUp => [(.port, takePin 16 pinID), (.ddr, releasePin 16 pinID)]
  | .mode .input => [(.ddr, releasePin 16 pinID)]
  | .mode (.other _) => []
  | .set => [(.port, takePin 16 pinID)]
  | .clear => [(.port, releasePin 16 pinID)]
  | .toggle => [(.port, togglePin pinID)]

/-- The edits that a call makes. -/
def PinCall.edits : PinCall → List (PortRegister × (BitVec 8 → BitVec 8))
  | .onPin port op => op.edits port.pin
  | .portMode port .out => [(.ddr, fun _ => port.pin)]
  | .portMode port .pullUp => [(.port, fun _ => port.pin), (.ddr, (· &&& ~~~port.pin))]
  | .portMode port .input => [(.ddr, (· &&& ~~~port.pin))]
  | .portMode _ (.other _) => []
  | .portWrite _ val => [(.port, fun _ => (val &&& 0xff).setWidth 8)]

namespace PinCall

/-- A call that fits makes its edits. -/
theorem make_eq (hfits : call.Fits) (mmio : Registers 8) :
    call.make mmio = .done (mmio.edit offset call.port.pbaddr call.edits) := by
  cases call with
  | onPin port op =>
      have honPin : ∀ {α : Type} (rest : α), MegaAvr.onPin port rest = .done rest :=
        fun _ => if_pos hfits
      cases op with
      | mode mode => cases mode <;> simp only [make, gpioPinMode, checked, honPin] <;> rfl
      | set | clear | toggle =>
          simp only [make, gpioPinSet, gpioPinClear, gpioPinToggle, checked, honPin]
          rfl
  | portMode port mode => cases mode <;> rfl
  | portWrite port val => rfl

/-- The call does to the pin what it asks of it. -/
theorem pinOf_make (hfits : call.Fits) (hi : i < 8) (hnames : call.Names base i)
    (hmake : call.make mmio = .done mmio') :
    pinOf base i mmio' = (pinOf base i mmio).act (call.asks i) := by
  rw [make_eq hfits] at hmake
  obtain rfl := Outcome.done.inj hmake
  cases call with
  | onPin port op =>
      obtain ⟨rfl, rfl⟩ := hnames
      have htake : ∀ word, (takePin 16 port.pin word).getLsbD port.pin.toNat = true := by
        simp [takePin_eq, hi]
      have hrelease : ∀ word, (releasePin 16 port.pin word).getLsbD port.pin.toNat = false := by
        simp [releasePin_eq]
      have htoggle : ∀ word, (togglePin port.pin word).getLsbD port.pin.toNat =
          !word.getLsbD port.pin.toNat := by
        simp [togglePin, hi, Nat.lt_trans hi]
      cases op with
      | mode mode =>
          cases mode <;> simp only [pinOf, edits, PinOp.edits, PinCall.port, asks, Registers.edit,
            List.foldl_cons, List.foldl_nil, Registers.lane_modify offset_injective, htake,
            hrelease, Pin.act]
      | set | clear =>
          simp only [pinOf, edits, PinOp.edits, PinCall.port, asks, Registers.edit,
            List.foldl_cons, List.foldl_nil, Registers.lane_modify offset_injective, htake,
            hrelease, Pin.act]
      | toggle =>
          simp only [pinOf, edits, PinOp.edits, PinCall.port, asks, Registers.edit,
            List.foldl_cons, List.foldl_nil, Registers.lane_modify offset_injective, htoggle,
            Pin.act]
          rfl
  | portMode port mode =>
      obtain rfl := hnames
      have hwhole : port.pin.getLsbD i = true := by
        have hbits : ∀ j < 8, wholePort.getLsbD j = true := by decide
        rw [show port.pin = wholePort from hfits]
        exact hbits i hi
      cases mode <;> simp [pinOf, edits, PinCall.port, asks, Registers.edit,
        Registers.lane_modify offset_injective, hwhole, Pin.act]
  | portWrite port val =>
      obtain rfl := hnames
      have hval : ((val &&& 0xff).setWidth 8).getLsbD i = val.getLsbD i := by
        have hbits : ∀ j < 8, (0xff : BitVec 64).getLsbD j = true := by decide
        rw [BitVec.getLsbD_setWidth, BitVec.getLsbD_and, hbits i hi]
        simp [hi]
      simp only [pinOf, edits, PinCall.port, asks, Registers.edit, List.foldl_cons,
        List.foldl_nil, Registers.lane_modify offset_injective, hval]
      cases val.getLsbD i <;> rfl

/-- The edits of a call on a pin keep the bits of others. -/
theorem keeps_edits {op : PinOp} {pinID : BitVec 8} (hne : i ≠ pinID.toNat) (hi : i < 8) :
    ∀ change ∈ op.edits pinID, ∀ word, (change.2 word).getLsbD i = word.getLsbD i := by
  have htoggle : ∀ word, (togglePin pinID word).getLsbD i = word.getLsbD i := by
    simp [togglePin, hne, hi]
  cases op with
  | mode mode => cases mode <;> simp [PinOp.edits, takePin_eq, releasePin_eq, hne]
  | set | clear => simp [PinOp.edits, takePin_eq, releasePin_eq, hne]
  | toggle => simp [PinOp.edits, htoggle]

/-- A call on another pin. -/
theorem pinOf_make_of_not_names (hfits : call.Fits) (hi : i < 8) (hnames : ¬ call.Names base i)
    (hapart : call.Apart base) (hmake : call.make mmio = .done mmio') :
    pinOf base i mmio' = pinOf base i mmio := by
  rw [make_eq hfits] at hmake
  obtain rfl := Outcome.done.inj hmake
  apply Registers.lane_edit_of_keeps
  by_cases hbase : call.port.pbaddr = base
  · cases call with
    | onPin port op => exact .inr (keeps_edits (fun hpin => hnames ⟨hbase, hpin.symm⟩) hi)
    | portMode | portWrite => exact absurd hbase hnames
  · refine .inl fun r r' => ?_
    have hr := offset_lt r
    have hr' := offset_lt r'
    have happart := hapart.resolve_left hbase
    omega

/-- A call changes no word but the registers of its port. -/
theorem make_of_outside {addr : ℕ} (hfits : call.Fits)
    (houtside : ∀ r, addr ≠ call.port.pbaddr + offset r) (hmake : call.make mmio = .done mmio') :
    mmio' addr = mmio addr := by
  rw [make_eq hfits] at hmake
  obtain rfl := Outcome.done.inj hmake
  exact Registers.edit_of_outside houtside

/-! ## Runs -/

/-- Make the calls, one after the other. -/
def makeAll (calls : List PinCall) (mmio : Registers 8) : Outcome GpioFault (Registers 8) :=
  calls.foldlM (fun mmio call => call.make mmio) mmio

variable {calls : List PinCall}

theorem makeAll_append (first second : List PinCall) (mmio : Registers 8) :
    makeAll (first ++ second) mmio = makeAll first mmio >>= makeAll second := by
  induction first generalizing mmio with
  | nil => rfl
  | cons call first ih =>
      have hrest : (fun mmio => makeAll (first ++ second) mmio) =
          fun mmio => makeAll first mmio >>= makeAll second := funext ih
      calc makeAll (call :: first ++ second) mmio
          = call.make mmio >>= fun mmio => makeAll (first ++ second) mmio := rfl
        _ = call.make mmio >>= fun mmio => makeAll first mmio >>= makeAll second := by rw [hrest]
        _ = makeAll (call :: first) mmio >>= makeAll second := (Outcome.bind_assoc _ _ _).symm

/-- What the calls of a run leave of a pin. -/
theorem pinOf_makeAll (hfits : ∀ call ∈ calls, call.Fits) (hi : i < 8)
    (hapart : ∀ call ∈ calls, call.Apart base) (hrun : makeAll calls mmio = .done mmio') :
    pinOf base i mmio' = (calls.filter fun call => call.Names base i).foldl
      (fun pin call => pin.act (call.asks i)) (pinOf base i mmio) := by
  refine view_foldlM (fun call hcall before after hnames hmake => ?_)
    (fun call hcall before after hnames hmake => ?_) hrun
  · exact pinOf_make (hfits call hcall) hi (of_decide_eq_true hnames) hmake
  · exact pinOf_make_of_not_names (hfits call hcall) hi (of_decide_eq_false hnames)
      (hapart call hcall) hmake

/-- A run changes no word but the registers of the ports. -/
theorem makeAll_of_outside {addr : ℕ} (hfits : ∀ call ∈ calls, call.Fits)
    (houtside : ∀ call ∈ calls, ∀ r, addr ≠ call.port.pbaddr + offset r)
    (hrun : makeAll calls mmio = .done mmio') : mmio' addr = mmio addr := by
  have hview := @view_foldlM _ _ _ _ _ (fun mmio => mmio addr) (fun word _ => word)
    (fun _ => false) calls (fun _ _ _ _ h => by cases h)
    (fun call hcall _ _ _ hmake => make_of_outside (hfits call hcall) (houtside call hcall) hmake)
    mmio mmio' hrun
  rwa [List.filter_eq_nil_iff.mpr (by simp)] at hview

/-- Calls on the eight pins of a port. -/
theorem exists_makeAll_eachPin (port : GpioPort) (op : ℕ → PinOp) (mmio : Registers 8) :
    ∃ mmio', makeAll (eachPin port op) mmio = .done mmio' ∧
      (∀ i < 8, pinOf port.pbaddr i mmio' = (pinOf port.pbaddr i mmio).act (op i)) ∧
      ∀ addr, (∀ r, addr ≠ port.pbaddr + offset r) → mmio' addr = mmio addr := by
  have hfits : ∀ call ∈ eachPin port op, call.Fits := by
    have hpins : ∀ j < 8, (BitVec.ofNat 8 j).toNat < 16 := by decide
    simpa [eachPin, Fits, pinHandle] using hpins
  have hports : ∀ call ∈ eachPin port op, call.port.pbaddr = port.pbaddr := by
    simp [eachPin, PinCall.port, pinHandle]
  obtain ⟨mmio', hrun⟩ :=
    exists_foldlM (fun call hcall mmio => ⟨_, make_eq (hfits call hcall) mmio⟩) mmio
  refine ⟨mmio', hrun, fun i hi => ?_, fun addr houtside => ?_⟩
  · have hone : ∀ i < 8, (List.range 8).filter (fun j => (BitVec.ofNat 8 j).toNat = i) = [i] := by
      decide
    have hmine : (eachPin port op).filter (fun call => call.Names port.pbaddr i) =
        [.onPin (pinHandle port i) (op i)] := by
      rw [eachPin, List.filter_map,
        List.filter_congr (q := fun j => (BitVec.ofNat 8 j).toNat = i), hone i hi]
      · rfl
      · simp [Names, pinHandle]
    rw [pinOf_makeAll hfits hi (fun call hcall => .inl (hports call hcall)) hrun, hmine]
    rfl
  · exact makeAll_of_outside hfits (fun call hcall => by rwa [hports call hcall]) hrun

/-- A call on a port does what the calls on its pins do. -/
theorem makeAll_pinwise (hfits : call.Fits) (mmio : Registers 8) :
    makeAll call.pinwise mmio = call.make mmio := by
  have heach : ∀ op : ℕ → PinOp, (∀ i < 8, call.Names call.port.pbaddr i ∧ op i = call.asks i) →
      makeAll (eachPin call.port op) mmio = call.make mmio := by
    intro op hop
    obtain ⟨mmio', hrun, hpins, houtside⟩ := exists_makeAll_eachPin call.port op mmio
    have hmake := make_eq hfits mmio
    have hlane : ∀ i < 8, pinOf call.port.pbaddr i mmio' = pinOf call.port.pbaddr i
        (mmio.edit offset call.port.pbaddr call.edits) := fun i hi => by
      rw [hpins i hi, (hop i hi).2, pinOf_make hfits hi (hop i hi).1 hmake]
    rw [hrun, hmake]
    exact congrArg _ (Registers.ext_lane hlane fun addr haddr => by
      rw [houtside addr haddr, make_of_outside hfits haddr hmake])
  cases call with
  | onPin port op => simp [makeAll, pinwise, make_eq hfits]
  | portMode port mode => exact heach _ fun i _ => ⟨rfl, rfl⟩
  | portWrite port val => exact heach _ fun i _ => ⟨rfl, rfl⟩

/-- A run in which calls on ports are made pin by pin. -/
theorem makeAll_flatMap_pinwise (hfits : ∀ call ∈ calls, call.Fits) (mmio : Registers 8) :
    makeAll (calls.flatMap pinwise) mmio = makeAll calls mmio := by
  induction calls generalizing mmio with
  | nil => rfl
  | cons call calls ih =>
      have hrest : makeAll (calls.flatMap pinwise) = makeAll calls :=
        funext (ih fun other h => hfits other (List.mem_cons_of_mem call h))
      rw [List.flatMap_cons, makeAll_append, makeAll_pinwise (hfits call List.mem_cons_self), hrest]
      rfl

end PinCall

/-- In every run of calls on pins and on whole ports, a call on a port might as well be made on
each of its pins; and every pin is as the calls that are about it would leave it by themselves. -/
theorem ports_pinwise {calls : List PinCall} (hfits : ∀ call ∈ calls, call.Fits)
    (mmio : Registers 8) :
    ∃ mmio', PinCall.makeAll calls mmio = .done mmio' ∧
      PinCall.makeAll (calls.flatMap PinCall.pinwise) mmio = .done mmio' ∧
      ∀ base, (∀ call ∈ calls, call.Apart base) → ∀ i < 8,
        pinOf base i mmio' = (calls.filter fun call => call.Names base i).foldl
          (fun pin call => pin.act (call.asks i)) (pinOf base i mmio) := by
  obtain ⟨mmio', hrun⟩ :=
    exists_foldlM (fun call hcall mmio => ⟨_, PinCall.make_eq (hfits call hcall) mmio⟩) mmio
  refine ⟨mmio', hrun, (PinCall.makeAll_flatMap_pinwise hfits mmio).trans hrun, ?_⟩
  exact fun base hapart i hi => PinCall.pinOf_makeAll hfits hi hapart hrun

/-- A pin is toggled, and then the port that it is on written as a whole. -/
theorem ports_pinwise_two : ∃ mmio' : Registers 8,
    pinOf 0x25 3 mmio' = [.mode .out, .toggle, .clear].foldl Pin.act (fun _ => false) ∧
      pinOf 0x25 4 mmio' = [.set].foldl Pin.act (fun _ => false) := by
  let calls : List PinCall := [.onPin ⟨0x25, 1, 3⟩ (.mode .out), .onPin ⟨0x25, 1, 3⟩ .toggle,
    .portWrite ⟨0x25, 1, wholePort⟩ 0x10]
  have hfits : ∀ call ∈ calls, call.Fits := by simp [calls, PinCall.Fits]
  have hapart : ∀ call ∈ calls, call.Apart 0x25 := by simp [calls, PinCall.Apart, PinCall.port]
  have hcleared : ∀ i, pinOf 0x25 i (fun _ => 0) = fun _ => false := fun i => by
    funext r
    simp [pinOf, Registers.lane]
  obtain ⟨mmio', -, -, hpins⟩ := ports_pinwise hfits (fun _ => 0)
  refine ⟨mmio', ?_, ?_⟩
  · rw [hpins 0x25 hapart 3 (by decide), hcleared]
    simp [calls, PinCall.Names, PinCall.asks]
  · rw [hpins 0x25 hapart 4 (by decide), hcleared]
    simp [calls, PinCall.Names, PinCall.asks]

end Cyancore.Gpio.MegaAvr
