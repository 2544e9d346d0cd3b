/-
# Pins and ports of the megaAVR

A port of a megaAVR has eight pins, and its byte in `port_status` a bit for each.  A client
can own a pin or the whole port: the first tests and sets one bit, the second tests whether
the byte is zero and sets all of it.
-/

import Cyancore.Driver.Gpio

namespace Cyancore.Gpio.MegaAvr

open Cyancore.Math

variable {n : ℕ}

/-- `STATUS_CHECK_POINTER` in front of a call. -/
def statusCheckPointer (port : Option GpioPort) (portStatus : PortStatus n)
    (rest : GpioPort → Outcome GpioFault (GpioReturn n)) : Outcome GpioFault (GpioReturn n) :=
  match port with
  | none => .done ⟨.errorInvalPointer, none, portStatus⟩
  | some port => rest port

/-- `(uint8_t)((uint16_t)(1 << BIT) - 1)`. -/
def wholePort : BitVec 8 := (bit 16 8 - 1#16).setWidth 8

/-- `gpio_pin_alloc`. -/
def gpioPinAlloc (ports : List GpioModule) (port : Option GpioPort) (portID pinID : BitVec 8)
    (portStatus : PortStatus n) : Outcome GpioFault (GpioReturn n) :=
  statusCheckPointer port portStatus fun port => shifted 16 pinID <|
    gpioAlloc ports (pinTaken 16 pinID) (takePin 16 pinID) pinID (some port) portID portStatus

/-- `gpio_pin_free`. -/
def gpioPinFree (port : Option GpioPort) (portStatus : PortStatus n) :
    Outcome GpioFault (GpioReturn n) :=
  statusCheckPointer port portStatus fun port => shifted 16 port.pin <|
    gpioFree (releasePin 16 port.pin) port portStatus

/-- `gpio_port_alloc`. -/
def gpioPortAlloc (ports : List GpioModule) (port : Option GpioPort) (portID : BitVec 8)
    (portStatus : PortStatus n) : Outcome GpioFault (GpioReturn n) :=
  statusCheckPointer port portStatus fun port =>
    gpioAlloc ports (fun status => status ≠ 0) (fun _ => wholePort) wholePort (some port) portID
      portStatus

/-- `gpio_port_free`. -/
def gpioPortFree (port : Option GpioPort) (portStatus : PortStatus n) :
    Outcome GpioFault (GpioReturn n) :=
  statusCheckPointer port portStatus fun port => gpioFree (fun _ => 0) port portStatus

/-! ## Runs of the clients -/

/-- A handle that was granted, by the call that granted it. -/
inductive Grant
  | pin (handle : GpioPort)
  | port (handle : GpioPort)
  deriving DecidableEq, Repr

/-- The handle of a grant. -/
def Grant.handle : Grant → GpioPort
  | .pin handle | .port handle => handle

/-- The grant is of a whole port. -/
def Grant.whole : Grant → Bool
  | .pin _ => false
  | .port _ => true

/-- The pins of a grant. -/
def Grant.pins : Grant → Set PinId
  | .pin handle => pinsOf handle.port.toNat {handle.pin.toNat}
  | .port handle => pinsOf handle.port.toNat {pin | pin < 8}

/-- A call, with the handle it is given; an allocation may be given a null pointer. -/
inductive GpioCall
  | pinAlloc (port : Option GpioPort) (portID pinID : BitVec 8)
  | portAlloc (port : Option GpioPort) (portID : BitVec 8)
  | pinFree (port : GpioPort)
  | portFree (port : GpioPort)
  deriving DecidableEq, Repr

/-- The port that a call is about. -/
def GpioCall.port : GpioCall → ℕ
  | .pinAlloc _ portID _ | .portAlloc _ portID => portID.toNat
  | .pinFree port | .portFree port => port.port.toNat

/-- What a call does to the ports. -/
def GpioCall.perform (ports : List GpioModule) (portStatus : PortStatus n) :
    GpioCall → Outcome GpioFault (GpioReturn n)
  | .pinAlloc port portID pinID => gpioPinAlloc ports port portID pinID portStatus
  | .portAlloc port portID => gpioPortAlloc ports port portID portStatus
  | .pinFree port => gpioPinFree (some port) portStatus
  | .portFree port => gpioPortFree (some port) portStatus

/-- Make a call. -/
def next (ports : List GpioModule) (call : GpioCall) (clients : Clients Grant n) :
    Option (Clients Grant n) :=
  let ret := call.perform ports clients.portStatus
  match call with
  | .pinAlloc _ _ _ => clients.alloc .pin ret
  | .portAlloc _ _ => clients.alloc .port ret
  | .pinFree port => clients.free (.pin port) ret
  | .portFree port => clients.free (.port port) ret

/-- The clients of a platform. -/
def gpioSystem (n : ℕ) (ports : List GpioModule) : TransitionSystem (Clients Grant n) GpioCall :=
  .ofNext (· = .start) (next ports)

/-- Ports and pins that exist, and handles freed once by those they were granted to, each
with the release that matches. -/
def Allowed : GpioCall → Clients Grant n → Prop
  | .pinAlloc _ portID pinID, _ => portID.toNat < n ∧ pinID.toNat < 8
  | .portAlloc _ portID, _ => portID.toNat < n
  | .pinFree port, clients => .pin port ∈ clients.grants
  | .portFree port, clients => .port port ∈ clients.grants

instance (call : GpioCall) (clients : Clients Grant n) : Decidable (Allowed call clients) :=
  match call with
  | .pinAlloc _ portID pinID => inferInstanceAs (Decidable (portID.toNat < n ∧ pinID.toNat < 8))
  | .portAlloc _ portID => inferInstanceAs (Decidable (portID.toNat < n))
  | .pinFree port => inferInstanceAs (Decidable (.pin port ∈ clients.grants))
  | .portFree port => inferInstanceAs (Decidable (.port port ∈ clients.grants))

/-! ## Whole ports -/

theorem getLsbD_wholePort (pin : ℕ) : wholePort.getLsbD pin = decide (pin < 8) := by
  have hall : wholePort = BitVec.allOnes 8 := by decide
  rw [hall, BitVec.getLsbD_allOnes]

/-- A byte that is zero has no pin in use, and one that is all ones has every pin. -/
theorem takes_wholePort :
    Takes {pin | pin < 8} (fun status => status ≠ 0) (fun _ => wholePort) where
  tests status pin htaken _ := by
    have hzero : status = 0 := by simpa using htaken
    rw [hzero]
    exact BitVec.getLsbD_zero
  keeps status pin hbit := by
    rw [getLsbD_wholePort]
    exact decide_eq_true (BitVec.lt_of_getLsbD hbit)
  sets status pin _ hlt := by
    rw [getLsbD_wholePort]
    exact decide_eq_true hlt

theorem clears_wholePort : Clears {pin | pin < 8} (fun _ => 0) := by
  intro status pin hbit hpin
  exact absurd (BitVec.lt_of_getLsbD hbit) hpin

/-! ## Calls -/

variable {ports : List GpioModule} {clients clients' : Clients Grant n}

/-- Where every pin has a bit, nobody's pins are out of sight. -/
theorem disjoint_unknown {grants : List Grant} {unit : Set PinId} :
    ∀ held ∈ grants, Disjoint (unit \ Set.univ) held.pins := by
  intro held _
  rw [Set.disjoint_left]
  intro pin hpin
  exact absurd (Set.mem_univ pin) hpin.2

/-- One call keeps custody of the pins. -/
theorem sound_next {call : GpioCall} (hsound : clients.Sound Grant.pins Set.univ)
    (hallowed : Allowed call clients) (hstep : next ports call clients = some clients') :
    clients'.Sound Grant.pins Set.univ := by
  cases call with
  | pinAlloc port portID pinID =>
      cases port with
      | none =>
          -- The call returns before it looks at the port.
          cases hstep
          exact hsound
      | some port =>
          have hpin : pinID.toNat < 16 := Nat.lt_of_lt_of_le hallowed.2 (by decide)
          simp only [next, GpioCall.perform, gpioPinAlloc, statusCheckPointer, shifted, hpin,
            if_true] at hstep
          apply sound_alloc hsound (takes_pin (by decide) pinID) _ _ disjoint_unknown hstep
          · intro pbaddr
            rfl
          · intro unit hunit
            have hsame : unit.2 = pinID.toNat := hunit.1.2
            have hlow : unit.2 < 8 := by
              rw [hsame]
              exact hallowed.2
            exact hlow
  | portAlloc port portID =>
      cases port with
      | none =>
          -- The call returns before it looks at the port.
          cases hstep
          exact hsound
      | some port =>
          simp only [next, GpioCall.perform, gpioPortAlloc, statusCheckPointer] at hstep
          apply sound_alloc hsound takes_wholePort _ _ disjoint_unknown hstep
          · intro pbaddr
            rfl
          · intro unit hunit
            exact hunit.1.2
  | pinFree port =>
      simp only [next, GpioCall.perform, gpioPinFree, statusCheckPointer, shifted] at hstep
      split at hstep
      · exact sound_free hsound hallowed (clears_pin (by decide) port.pin) rfl hstep
      · cases hstep
  | portFree port =>
      simp only [next, GpioCall.perform, gpioPortFree, statusCheckPointer] at hstep
      exact sound_free hsound hallowed clears_wholePort rfl hstep

theorem sound_of_reachable (hreach : (gpioSystem n ports).Reachable Allowed clients) :
    clients.Sound Grant.pins Set.univ := by
  apply hreach.invariant (fun clients => clients.Sound Grant.pins Set.univ)
  · rintro _ rfl
    exact sound_start
  · intro call before after hbefore hallowed hstep
    exact sound_next hbefore hallowed hstep

/-- The pins of a grant exist, and are marked. -/
theorem pins_subset_marked (hsound : clients.Sound Grant.pins Set.univ) {grant : Grant}
    (hgrant : grant ∈ clients.grants) : grant.pins ⊆ clients.portStatus.marked := by
  intro unit hunit
  exact hsound.kept grant hgrant ⟨hunit, Set.mem_univ unit⟩

/-- A grant has a pin of its port. -/
theorem exists_mem_pins (grant : Grant) : ∃ pin, (grant.handle.port.toNat, pin) ∈ grant.pins := by
  cases grant with
  | pin handle => exact ⟨handle.pin.toNat, rfl, rfl⟩
  | port handle => exact ⟨0, rfl, Nat.zero_lt_succ 7⟩

/-- The port of a grant exists. -/
theorem port_lt_of_sound (hsound : clients.Sound Grant.pins Set.univ) {grant : Grant}
    (hgrant : grant ∈ clients.grants) : grant.handle.port.toNat < n := by
  obtain ⟨pin, hpin⟩ := exists_mem_pins grant
  exact (bounds_of_mem_marked (pins_subset_marked hsound hgrant hpin)).1

/-- The pin of a grant of a pin exists. -/
theorem pin_lt_of_sound (hsound : clients.Sound Grant.pins Set.univ) {handle : GpioPort}
    (hgrant : .pin handle ∈ clients.grants) : handle.pin.toNat < 8 := by
  have hpin : (handle.port.toNat, handle.pin.toNat) ∈ (Grant.pin handle).pins := ⟨rfl, rfl⟩
  exact (bounds_of_mem_marked (pins_subset_marked hsound hgrant hpin)).2

/-- A grant of a whole port shares a pin with every grant that has a marked pin of the port. -/
theorem port_ne_of_whole {whole other : Grant} (hwhole : whole.whole = true)
    (hmarked : other.pins ⊆ clients.portStatus.marked)
    (hdisjoint : Disjoint whole.pins other.pins) : whole.handle.port ≠ other.handle.port := by
  intro hsame
  obtain ⟨pin, hpin⟩ := exists_mem_pins other
  have hlow : pin < 8 := (bounds_of_mem_marked (hmarked hpin)).2
  cases whole with
  | pin handle => cases hwhole
  | port handle =>
      have hport : handle.port = other.handle.port := hsame
      apply Set.disjoint_left.mp hdisjoint _ hpin
      exact ⟨by rw [← hport], hlow⟩

/-- A call that is allowed returns, and leaves the bytes of the other ports. -/
theorem perform_of_sound (hsound : clients.Sound Grant.pins Set.univ) {call : GpioCall}
    (hallowed : Allowed call clients) :
    ∃ ret, call.perform ports clients.portStatus = .done ret ∧
      ∀ port ≠ call.port, ret.portStatus[port]? = clients.portStatus[port]? := by
  cases call with
  | pinAlloc port portID pinID =>
      cases port with
      | none => exact ⟨_, rfl, fun _ _ => rfl⟩
      | some port =>
          have hpin : pinID.toNat < 16 := Nat.lt_of_lt_of_le hallowed.2 (by decide)
          obtain ⟨ret, hret⟩ := @gpioAlloc_returns n clients.portStatus ports
            (pinTaken 16 pinID) (takePin 16 pinID) pinID portID hallowed.1 port
          refine ⟨ret, ?_, fun other hother => portStatus_of_gpioAlloc hret hother⟩
          rw [GpioCall.perform, gpioPinAlloc, statusCheckPointer, shifted, if_pos hpin]
          exact hret
  | portAlloc port portID =>
      cases port with
      | none => exact ⟨_, rfl, fun _ _ => rfl⟩
      | some port =>
          obtain ⟨ret, hret⟩ := @gpioAlloc_returns n clients.portStatus ports
            (fun status => status ≠ 0) (fun _ => wholePort) wholePort portID hallowed port
          exact ⟨ret, hret, fun other hother => portStatus_of_gpioAlloc hret hother⟩
  | pinFree port =>
      have hport : port.port.toNat < n := port_lt_of_sound hsound hallowed
      have hpin : port.pin.toNat < 16 :=
        Nat.lt_of_lt_of_le (pin_lt_of_sound hsound hallowed) (by decide)
      have hret := @gpioFree_of_lt n clients.portStatus (releasePin 16 port.pin) port hport
      refine ⟨_, ?_, fun other hother => portStatus_of_gpioFree hret hother⟩
      rw [GpioCall.perform, gpioPinFree, statusCheckPointer, shifted, if_pos hpin]
      exact hret
  | portFree port =>
      have hport : port.port.toNat < n := port_lt_of_sound hsound hallowed
      have hret := @gpioFree_of_lt n clients.portStatus (fun _ => 0) port hport
      exact ⟨_, hret, fun other hother => portStatus_of_gpioFree hret hother⟩

/-- In every run the allocations that are outstanding share no pin, none is of a port that
another one has whole, and a call returns and leaves the other ports alone. -/
theorem grants_exclusive {ports : List GpioModule} {clients : Clients Grant n}
    (hreach : (gpioSystem n ports).Reachable Allowed clients) :
    clients.grants.Pairwise (fun first second => Disjoint first.pins second.pins) ∧
      clients.grants.Pairwise (fun first second =>
        (first.whole || second.whole) = true → first.handle.port ≠ second.handle.port) ∧
      ∀ call, Allowed call clients →
        ∃ ret, call.perform ports clients.portStatus = .done ret ∧
          ∀ port ≠ call.port, ret.portStatus[port]? = clients.portStatus[port]? := by
  have hsound := sound_of_reachable hreach
  refine ⟨hsound.exclusive, ?_, fun call hallowed => perform_of_sound hsound hallowed⟩
  apply hsound.exclusive.imp_of_mem
  intro first second hfirst hsecond hdisjoint hwhole
  rcases Bool.or_eq_true_iff.mp hwhole with hwhole | hwhole
  · exact port_ne_of_whole hwhole (pins_subset_marked hsound hsecond) hdisjoint
  · exact (port_ne_of_whole hwhole (pins_subset_marked hsound hfirst) hdisjoint.symm).symm

/-- The ports of the ATmega328P that the device properties of the platform list. -/
def atmega328pPorts : List GpioModule := [⟨0x5001, 0x23⟩, ⟨0x5002, 0x26⟩, ⟨0x5003, 0x29⟩]

/-- A pin, a whole port, and an allocation that failed on a port without properties. -/
theorem grants_exclusive_three :
    ∃ clients : Clients Grant 3, clients.grants.length = 2 ∧
      clients.grants.Pairwise (fun first second => Disjoint first.pins second.pins) := by
  have hstart : (gpioSystem 3 atmega328pPorts).Reachable Allowed .start := .start rfl
  have htest : (TransitionSystem.replay (next atmega328pPorts) Allowed
      [.pinAlloc (some ⟨0, 0, 0⟩) 1 3, .portAlloc (some ⟨0, 0, 0⟩) 2,
        .pinAlloc (some ⟨0, 0, 0⟩) 0 5] .start).any
        (fun clients : Clients Grant 3 => clients.grants.length = 2) = true := by
    decide
  obtain ⟨clients, hreach, hclients⟩ := hstart.exists_replay htest
  exact ⟨clients, of_decide_eq_true hclients, (grants_exclusive hreach).1⟩

end Cyancore.Gpio.MegaAvr
