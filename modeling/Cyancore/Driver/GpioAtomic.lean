/-
# Allocations that fail

An allocation marks its pin or its port under the lock and asks for the device properties
afterwards, outside it.  When these do not have the port the call returns an error, and the
mark stays: nobody owns the pin, and nobody can free it.
-/

import Cyancore.Driver.GpioFe310
import Cyancore.Driver.GpioMegaAvr

namespace Cyancore.Gpio

open Cyancore.Math

variable {n : ℕ}

/-- A call that returns an error leaves `port_status` as it was. -/
def KeepsOnError (portStatus : PortStatus n) (call : Outcome GpioFault (GpioReturn n)) : Prop :=
  ∀ ret, call = .done ret → ret.status ≠ .success → ret.portStatus = portStatus

/-- An allocation on one of the platforms. -/
inductive AllocCall
  | fe310Pin (port : Option GpioPort) (portID pinID : BitVec 8)
  | megaAvrPin (port : Option GpioPort) (portID pinID : BitVec 8)
  | megaAvrPort (port : Option GpioPort) (portID : BitVec 8)
  deriving DecidableEq, Repr

namespace AllocCall

/-- Make the call. -/
def perform (ports : List GpioModule) (portStatus : PortStatus n) :
    AllocCall → Outcome GpioFault (GpioReturn n)
  | .fe310Pin port portID pinID => Fe310.gpioPinAlloc ports port portID pinID portStatus
  | .megaAvrPin port portID pinID => MegaAvr.gpioPinAlloc ports port portID pinID portStatus
  | .megaAvrPort port portID => MegaAvr.gpioPortAlloc ports port portID portStatus

/-- The handle that the call is given. -/
def handle : AllocCall → Option GpioPort
  | .fe310Pin port _ _ | .megaAvrPin port _ _ | .megaAvrPort port _ => port

/-- The port that it asks for. -/
def portID : AllocCall → BitVec 8
  | .fe310Pin _ portID _ | .megaAvrPin _ portID _ | .megaAvrPort _ portID => portID

/-- What it asks for is free in a port with this byte, and has a bit. -/
def Free (status : BitVec 8) : AllocCall → Prop
  | .fe310Pin _ _ pinID | .megaAvrPin _ _ pinID =>
      pinID.toNat < 8 ∧ status.getLsbD pinID.toNat = false
  | .megaAvrPort _ _ => status = 0

/-- It asks, with a handle, for something free on a port that has a byte but no properties. -/
def Stranded (ports : List GpioModule) (portStatus : PortStatus n) (call : AllocCall) : Prop :=
  call.handle.isSome = true ∧ dpGetPortInfo ports (gpio ||| call.portID.toNat) = none ∧
    ∃ status, portStatus[call.portID.toNat]? = some status ∧ call.Free status

end AllocCall

/-! ## The shared body -/

variable {ports : List GpioModule} {portStatus : PortStatus n} {taken : BitVec 8 → Bool}
  {take : BitVec 8 → BitVec 8} {pin portID : BitVec 8}

/-- Writing a byte leaves the ports as they were where it is the byte that was there. -/
theorem set_eq_self_iff {port : ℕ} (hport : port < n) (status : BitVec 8) :
    portStatus.set port status hport = portStatus ↔ status = portStatus[port] := by
  constructor
  · intro hsame
    have hbyte := congrArg (fun bytes : PortStatus n => bytes[port]) hsame
    simpa using hbyte
  · intro hstatus
    rw [hstatus, Vector.set_getElem_self]

/-- An allocation without properties returns an error, and marks a free port. -/
theorem gpioAlloc_of_missing (hport : portID.toNat < n)
    (hmissing : dpGetPortInfo ports (gpio ||| portID.toNat) = none)
    (hfree : taken portStatus[portID.toNat] = false) (handle : GpioPort) :
    gpioAlloc ports taken take pin (some handle) portID portStatus =
      .done ⟨.errorDeviceIdInval, some { handle with pin := pin, port := portID },
        portStatus.set portID.toNat (take portStatus[portID.toNat]) hport⟩ := by
  simp [gpioAlloc, hport, hfree, platformFetchDp, hmissing]

/-- The body keeps the ports on an error unless it marks a port without properties. -/
theorem keepsOnError_gpioAlloc_iff (handle : Option GpioPort) :
    KeepsOnError portStatus (gpioAlloc ports taken take pin handle portID portStatus) ↔
      ¬ (handle.isSome = true ∧ dpGetPortInfo ports (gpio ||| portID.toNat) = none ∧
        ∃ status, portStatus[portID.toNat]? = some status ∧ taken status = false ∧
          take status ≠ status) := by
  constructor
  · rintro hkeeps ⟨hhandle, hmissing, status, hstatus, hfree, htake⟩
    obtain ⟨handle, rfl⟩ := Option.isSome_iff_exists.mp hhandle
    obtain ⟨hport, rfl⟩ := Vector.getElem?_eq_some_iff.mp hstatus
    have hsame := hkeeps _ (gpioAlloc_of_missing hport hmissing hfree handle)
      (fun hsuccess => by cases hsuccess)
    exact htake ((set_eq_self_iff hport _).mp hsame)
  · intro hstranded ret hcall hfail
    obtain ⟨hport, ⟨_, rfl⟩ | ⟨hfree, status, pbaddr, rfl, hstatus⟩⟩ := gpioAlloc_cases hcall
    · rfl
    · -- The byte was written, so the error is that of the properties.
      by_contra hchanged
      apply hstranded
      cases handle with
      | none => simp [gpioAlloc, hport, hfree] at hcall
      | some handle =>
          refine ⟨rfl, ?_, _, Vector.getElem?_eq_getElem hport, hfree, ?_⟩
          · cases hfound : dpGetPortInfo ports (gpio ||| portID.toNat) with
            | none => rfl
            | some module =>
                simp [gpioAlloc, hport, hfree, platformFetchDp, hfound] at hcall
                exact absurd hcall.1.symm hfail
          · exact fun hsame => hchanged ((set_eq_self_iff hport _).mpr hsame)

/-! ## The three calls -/

/-- Marking a free pin changes the byte where the pin has a bit. -/
theorem takePin_ne_iff {w : ℕ} (hw : 8 ≤ w) (pinID status : BitVec 8) :
    pinTaken w pinID status = false ∧ takePin w pinID status ≠ status ↔
      pinID.toNat < 8 ∧ status.getLsbD pinID.toNat = false := by
  rw [pinTaken_eq hw, takePin_eq hw]
  constructor
  · rintro ⟨hfree, htake⟩
    refine ⟨?_, hfree⟩
    by_contra hwide
    apply htake
    ext i hi
    simp [hwide]
  · rintro ⟨hpin, hfree⟩
    refine ⟨hfree, fun hsame => ?_⟩
    have hset : (setBit status pinID.toNat).getLsbD pinID.toNat = true := by
      simp [hpin]
    rw [hsame, hfree] at hset
    cases hset

/-- A pin that `int` has no bit for is not asked about. -/
theorem keepsOnError_shifted_iff {w : ℕ} (hw : 8 ≤ w) (pinID : BitVec 8)
    (handle : Option GpioPort) :
    KeepsOnError portStatus (shifted w pinID (gpioAlloc ports (pinTaken w pinID)
        (takePin w pinID) pinID handle portID portStatus)) ↔
      ¬ (handle.isSome = true ∧ dpGetPortInfo ports (gpio ||| portID.toNat) = none ∧
        ∃ status, portStatus[portID.toNat]? = some status ∧
          pinID.toNat < 8 ∧ status.getLsbD pinID.toNat = false) := by
  by_cases hpin : pinID.toNat < w
  · rw [shifted, if_pos hpin, keepsOnError_gpioAlloc_iff]
    simp only [takePin_ne_iff hw]
  · rw [shifted, if_neg hpin]
    constructor
    · rintro - ⟨-, -, status, -, hlow, -⟩
      exact hpin (Nat.lt_of_lt_of_le hlow hw)
    · intro _ ret hcall
      cases hcall

/-- A null pointer is an error that changes nothing. -/
theorem keepsOnError_statusCheckPointer_iff (handle : Option GpioPort)
    (rest : GpioPort → Outcome GpioFault (GpioReturn n)) :
    KeepsOnError portStatus (MegaAvr.statusCheckPointer handle portStatus rest) ↔
      ∀ port, handle = some port → KeepsOnError portStatus (rest port) := by
  cases handle with
  | none =>
      constructor
      · intro _ port hport
        cases hport
      · intro _ ret hcall _
        cases hcall
        rfl
  | some port =>
      constructor
      · intro hkeeps port' hport
        cases hport
        exact hkeeps
      · intro hkeeps
        exact hkeeps port rfl

theorem isSome_and_iff {p : Prop} (handle : Option GpioPort) :
    (∀ port, handle = some port → ¬ ((some port).isSome = true ∧ p)) ↔
      ¬ (handle.isSome = true ∧ p) := by
  cases handle <;> simp

/-- On both platforms, whatever the ports hold and whatever is asked, an allocation that returns
an error leaves `port_status` unchanged exactly when it did not claim something free on a port
that the device properties do not have. -/
theorem alloc_keepsOnError_iff (ports : List GpioModule) (portStatus : PortStatus n)
    (call : AllocCall) :
    KeepsOnError portStatus (call.perform ports portStatus) ↔
      ¬ call.Stranded ports portStatus := by
  cases call with
  | fe310Pin port portID pinID => exact keepsOnError_shifted_iff (by decide) pinID port
  | megaAvrPin port portID pinID =>
      rw [AllocCall.perform, MegaAvr.gpioPinAlloc, keepsOnError_statusCheckPointer_iff]
      simp only [keepsOnError_shifted_iff (show 8 ≤ 16 by decide), isSome_and_iff]
      rfl
  | megaAvrPort port portID =>
      have hwhole (status : BitVec 8) : decide (status ≠ 0) = false ∧
          MegaAvr.wholePort ≠ status ↔ status = 0 := by
        constructor
        · rintro ⟨hzero, _⟩
          simpa using hzero
        · rintro rfl
          exact ⟨rfl, by decide⟩
      rw [AllocCall.perform, MegaAvr.gpioPortAlloc, keepsOnError_statusCheckPointer_iff]
      simp only [keepsOnError_gpioAlloc_iff, isSome_and_iff, hwhole]
      rfl

/-- Port 0 of the ATmega328P has a byte, but no properties. -/
theorem not_keepsOnError :
    ¬ ∀ (n : ℕ) (ports : List GpioModule) (portStatus : PortStatus n) (call : AllocCall),
      KeepsOnError portStatus (call.perform ports portStatus) := by
  intro hclaim
  have hkeeps := hclaim 3 MegaAvr.atmega328pPorts (Vector.replicate 3 0)
    (.megaAvrPin (some ⟨0, 0, 0⟩) 0 5)
  have hmark := hkeeps ⟨.errorDeviceIdInval, some ⟨0, 0, 5⟩, (Vector.replicate 3 0).set 0 32⟩
    (by decide) (by decide)
  revert hmark
  decide

end Cyancore.Gpio
