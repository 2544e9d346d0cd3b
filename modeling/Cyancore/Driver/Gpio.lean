/-
# Ownership of GPIO pins

A port has a byte in `port_status` with a bit for each pin in use.  An allocation tests and
sets bits of it under a lock, and fills the client's handle afterwards from the device
properties; a release clears what the handle names.  The ports of the platform layer do this
alike, with an `int` of their own width: a pin's bit is `1 << pin`, computed as an `int` and
stored in a byte.
-/

import Cyancore.Basic
import Cyancore.Math.Bits
import Cyancore.Math.Grants
import Cyancore.Math.Transition
import Mathlib.Data.Set.Insert

namespace Cyancore.Gpio

open Cyancore.Math

/-- `gpio_port_t`, what an allocation leaves with its client. -/
structure GpioPort where
  pbaddr : ℕ
  port : BitVec 8
  pin : BitVec 8
  deriving DecidableEq, Repr

/-- `gpio_module_t`. -/
structure GpioModule where
  id : ℕ
  baddr : ℕ
  deriving DecidableEq, Repr

/-- `gpio_mode_t`, whose variables hold any value of its type; `in` is `input`. -/
inductive GpioMode
  | out
  | input
  | pullUp
  | other (value : ℕ)
  deriving DecidableEq, Repr

/-- How a call can leave its defined behaviour. -/
inductive GpioFault
  | /-- `port_status` was indexed outside its `N_PORT` entries. -/
    outOfPorts
  | /-- The handle is a null pointer. -/
    nullPointer
  | /-- `1` was shifted by the width of `int` or more. -/
    shiftTooFar
  deriving DecidableEq, Repr

/-- The bytes of `port_status`, with `N_PORT = n`. -/
abbrev PortStatus (n : ℕ) := Vector (BitVec 8) n

/-- What a call returns, and what it leaves in `*port` and in `port_status`. -/
structure GpioReturn (n : ℕ) where
  status : StatusCode
  handle : Option GpioPort
  portStatus : PortStatus n
  deriving DecidableEq

variable {n : ℕ}

/-! ## The device properties -/

/-- The member `gpio` of `hw_devid_t`. -/
def gpio : ℕ := 0x5000

/-- `dp_get_port_info`. -/
def dpGetPortInfo (ports : List GpioModule) (id : ℕ) : Option GpioModule :=
  ports.find? fun module => module.id = id

/-- `platform_fetch_dp` for `gpio`: the status it replies, or the module. -/
def platformFetchDp (ports : List GpioModule) (portID : BitVec 8) :
    Except StatusCode GpioModule :=
  match dpGetPortInfo ports (gpio ||| portID.toNat) with
  | some module => .ok module
  | none => .error .errorDeviceIdInval

/-! ## The bits of a port, with an `int` of `w` bits -/

/-- `port_status[portID] & (1 << pinID)`. -/
def pinTaken (w : ℕ) (pinID status : BitVec 8) : Bool :=
  status.setWidth w &&& bit w pinID.toNat ≠ 0

/-- `port_status[portID] |= (1 << pinID)`. -/
def takePin (w : ℕ) (pinID status : BitVec 8) : BitVec 8 :=
  (setBit (status.setWidth w) pinID.toNat).setWidth 8

/-- `port_status[port->port] &= ~(1 << port->pin)`. -/
def releasePin (w : ℕ) (pinID status : BitVec 8) : BitVec 8 :=
  (clearBit (status.setWidth w) pinID.toNat).setWidth 8

/-- Evaluate `1 << pinID` on the way. -/
def shifted (w : ℕ) (pinID : BitVec 8) (rest : Outcome GpioFault (GpioReturn n)) :
    Outcome GpioFault (GpioReturn n) :=
  if pinID.toNat < w then rest else .fault .shiftTooFar

/-! ## The bodies that the calls share -/

/-- An allocation: a port whose byte is `taken` is refused, otherwise `take` marks it, and
the handle is told its pin and port before the device properties are asked for the address. -/
def gpioAlloc (ports : List GpioModule) (taken : BitVec 8 → Bool) (take : BitVec 8 → BitVec 8)
    (pin : BitVec 8) (port : Option GpioPort) (portID : BitVec 8) (portStatus : PortStatus n) :
    Outcome GpioFault (GpioReturn n) :=
  if h : portID.toNat < n then
    if taken portStatus[portID.toNat] then .done ⟨.errorDriverBusy, port, portStatus⟩
    else
      match port with
      | none => .fault .nullPointer
      | some handle =>
          let portStatus := portStatus.set portID.toNat (take portStatus[portID.toNat]) h
          let handle := { handle with pin := pin, port := portID }
          match platformFetchDp ports portID with
          | .error status => .done ⟨status, some handle, portStatus⟩
          | .ok dp => .done ⟨.success, some { handle with pbaddr := dp.baddr }, portStatus⟩
  else
    .fault .outOfPorts

/-- A release: `clear` unmarks what the handle names, and the handle is zeroed. -/
def gpioFree (clear : BitVec 8 → BitVec 8) (handle : GpioPort) (portStatus : PortStatus n) :
    Outcome GpioFault (GpioReturn n) :=
  if h : handle.port.toNat < n then
    .done ⟨.success, some ⟨0, 0, 0⟩,
      portStatus.set handle.port.toNat (clear portStatus[handle.port.toNat]) h⟩
  else
    .fault .outOfPorts

/-! ## What the bits say -/

variable {w : ℕ}

theorem pinTaken_eq (hw : 8 ≤ w) (pinID status : BitVec 8) :
    pinTaken w pinID status = status.getLsbD pinID.toNat := by
  rw [Bool.eq_iff_iff, pinTaken, decide_eq_true_iff, and_bit_ne_zero_iff,
    BitVec.getLsbD_setWidth]
  by_cases hpin : pinID.toNat < w
  · simp [hpin]
  · simp [hpin, BitVec.getLsbD_of_ge status pinID.toNat (by omega)]

theorem takePin_eq (hw : 8 ≤ w) (pinID status : BitVec 8) :
    takePin w pinID status = setBit status pinID.toNat :=
  setWidth_setBit hw status pinID.toNat

theorem releasePin_eq (hw : 8 ≤ w) (pinID status : BitVec 8) :
    releasePin w pinID status = clearBit status pinID.toNat :=
  setWidth_clearBit hw status pinID.toNat

/-! ## The marked pins -/

/-- A pin of a port, by number. -/
abbrev PinId := ℕ × ℕ

/-- The pins whose bits are set. -/
def PortStatus.marked (portStatus : PortStatus n) : Set PinId :=
  {unit | ∃ status, portStatus[unit.1]? = some status ∧ status.getLsbD unit.2 = true}

/-- The pins that have a bit. -/
def tracked : Set PinId := {unit | unit.2 < 8}

variable {portStatus : PortStatus n}

theorem mem_marked_iff {port pin : ℕ} (hport : port < n) :
    (port, pin) ∈ portStatus.marked ↔ portStatus[port].getLsbD pin = true := by
  simp [PortStatus.marked, hport]

theorem bounds_of_mem_marked {unit : PinId} (hunit : unit ∈ portStatus.marked) :
    unit.1 < n ∧ unit.2 < 8 := by
  obtain ⟨status, hstatus, hbit⟩ := hunit
  constructor
  · obtain ⟨hlt, _⟩ := Vector.getElem?_eq_some_iff.mp hstatus
    exact hlt
  · exact BitVec.lt_of_getLsbD hbit

/-- Writing a byte changes the marks of its own port only. -/
theorem mem_marked_set_iff {port : ℕ} (hport : port < n) (status : BitVec 8) {unit : PinId} :
    unit ∈ PortStatus.marked (portStatus.set port status hport) ↔
      if unit.1 = port then status.getLsbD unit.2 = true else unit ∈ portStatus.marked := by
  obtain ⟨unitPort, pin⟩ := unit
  by_cases hsame : unitPort = port
  · subst hsame
    rw [mem_marked_iff hport]
    simp
  · simp only [hsame, if_false]
    unfold PortStatus.marked
    simp [Vector.getElem?_set, Ne.symm hsame]

/-! ## What a call does -/

variable {ports : List GpioModule} {taken : BitVec 8 → Bool} {take : BitVec 8 → BitVec 8}
  {pin portID : BitVec 8}

/-- An allocation on a taken port is refused, and changes nothing. -/
theorem gpioAlloc_of_taken (hport : portID.toNat < n)
    (htaken : taken portStatus[portID.toNat] = true) (handle : Option GpioPort) :
    gpioAlloc ports taken take pin handle portID portStatus =
      .done ⟨.errorDriverBusy, handle, portStatus⟩ := by
  rw [gpioAlloc, dif_pos hport, if_pos htaken]

/-- An allocation on a free port marks it, whether or not the device properties know it. -/
theorem gpioAlloc_of_free (hport : portID.toNat < n)
    (htaken : taken portStatus[portID.toNat] = false) (handle : GpioPort) :
    ∃ status pbaddr, gpioAlloc ports taken take pin (some handle) portID portStatus =
        .done ⟨status, some ⟨pbaddr, portID, pin⟩,
          portStatus.set portID.toNat (take portStatus[portID.toNat]) hport⟩ ∧
      (status = .success ∨ status = .errorDeviceIdInval) := by
  simp only [gpioAlloc, hport, dite_true, htaken, Bool.false_eq_true, if_false]
  unfold platformFetchDp
  cases dpGetPortInfo ports (gpio ||| portID.toNat) with
  | none => exact ⟨.errorDeviceIdInval, handle.pbaddr, rfl, .inr rfl⟩
  | some module => exact ⟨.success, module.baddr, rfl, .inl rfl⟩

/-- An allocation with a handle returns on every port of the platform. -/
theorem gpioAlloc_returns (hport : portID.toNat < n) (handle : GpioPort) :
    ∃ ret, gpioAlloc ports taken take pin (some handle) portID portStatus = .done ret := by
  cases htaken : taken portStatus[portID.toNat] with
  | true => exact ⟨_, gpioAlloc_of_taken hport htaken (some handle)⟩
  | false =>
      obtain ⟨status, pbaddr, hreturn, _⟩ :=
        @gpioAlloc_of_free n portStatus ports taken take pin portID hport htaken handle
      exact ⟨_, hreturn⟩

/-- What an allocation that returned can have done. -/
theorem gpioAlloc_cases {handle : Option GpioPort} {ret : GpioReturn n}
    (hcall : gpioAlloc ports taken take pin handle portID portStatus = .done ret) :
    ∃ hport : portID.toNat < n,
      (taken portStatus[portID.toNat] = true ∧
        ret = ⟨.errorDriverBusy, handle, portStatus⟩) ∨
      (taken portStatus[portID.toNat] = false ∧ ∃ status pbaddr,
        ret = ⟨status, some ⟨pbaddr, portID, pin⟩,
          portStatus.set portID.toNat (take portStatus[portID.toNat]) hport⟩ ∧
        (status = .success ∨ status = .errorDeviceIdInval)) := by
  by_cases hport : portID.toNat < n
  · use hport
    cases htaken : taken portStatus[portID.toNat] with
    | true =>
        rw [gpioAlloc_of_taken hport htaken] at hcall
        cases hcall
        exact .inl ⟨rfl, rfl⟩
    | false =>
        cases handle with
        | none => simp [gpioAlloc, hport, htaken] at hcall
        | some handle =>
            obtain ⟨status, pbaddr, hreturn, hstatus⟩ :=
              @gpioAlloc_of_free n portStatus ports taken take pin portID hport htaken handle
            rw [hreturn] at hcall
            cases hcall
            exact .inr ⟨rfl, status, pbaddr, rfl, hstatus⟩
  · simp [gpioAlloc, hport] at hcall

/-- A release of a handle of a port of the platform succeeds. -/
theorem gpioFree_of_lt {clear : BitVec 8 → BitVec 8} {handle : GpioPort}
    (hport : handle.port.toNat < n) :
    gpioFree clear handle portStatus = .done ⟨.success, some ⟨0, 0, 0⟩,
      portStatus.set handle.port.toNat (clear portStatus[handle.port.toNat]) hport⟩ := by
  rw [gpioFree, dif_pos hport]

/-- What a release that returned has done. -/
theorem gpioFree_cases {clear : BitVec 8 → BitVec 8} {handle : GpioPort} {ret : GpioReturn n}
    (hcall : gpioFree clear handle portStatus = .done ret) :
    ∃ hport : handle.port.toNat < n, ret = ⟨.success, some ⟨0, 0, 0⟩,
      portStatus.set handle.port.toNat (clear portStatus[handle.port.toNat]) hport⟩ := by
  by_cases hport : handle.port.toNat < n
  · rw [gpioFree_of_lt hport] at hcall
    cases hcall
    exact ⟨hport, rfl⟩
  · simp [gpioFree, hport] at hcall

/-- An allocation leaves the bytes of other ports. -/
theorem portStatus_of_gpioAlloc {handle : Option GpioPort} {ret : GpioReturn n}
    (hcall : gpioAlloc ports taken take pin handle portID portStatus = .done ret) {port : ℕ}
    (hother : port ≠ portID.toNat) : ret.portStatus[port]? = portStatus[port]? := by
  rcases gpioAlloc_cases hcall with ⟨hport, ⟨_, rfl⟩ | ⟨_, status, pbaddr, rfl, _⟩⟩
  · rfl
  · exact Vector.getElem?_set_ne hport (Ne.symm hother)

/-- A release leaves the bytes of other ports. -/
theorem portStatus_of_gpioFree {clear : BitVec 8 → BitVec 8} {handle : GpioPort}
    {ret : GpioReturn n} (hcall : gpioFree clear handle portStatus = .done ret) {port : ℕ}
    (hother : port ≠ handle.port.toNat) : ret.portStatus[port]? = portStatus[port]? := by
  obtain ⟨hport, rfl⟩ := gpioFree_cases hcall
  exact Vector.getElem?_set_ne hport (Ne.symm hother)

/-! ## The clients -/

/-- `port_status`, and the allocations that succeeded and were not freed. -/
structure Clients (γ : Type) (n : ℕ) where
  portStatus : PortStatus n
  grants : List γ
  deriving DecidableEq

namespace Clients

variable {γ : Type}

/-- Before the first call. -/
def start : Clients γ n where
  portStatus := Vector.replicate n 0
  grants := []

/-- After an allocation that returned: the handle is the client's if it succeeded. -/
def alloc (kind : GpioPort → γ) (call : Outcome GpioFault (GpioReturn n))
    (clients : Clients γ n) : Option (Clients γ n) :=
  match call with
  | .done ⟨status, some handle, portStatus⟩ =>
      if status = .success then some ⟨portStatus, kind handle :: clients.grants⟩
      else some ⟨portStatus, clients.grants⟩
  | .done ⟨_, none, portStatus⟩ => some ⟨portStatus, clients.grants⟩
  | _ => none

/-- After a release that returned. -/
def free [DecidableEq γ] (grant : γ) (call : Outcome GpioFault (GpioReturn n))
    (clients : Clients γ n) : Option (Clients γ n) :=
  match call with
  | .done ret => some ⟨ret.portStatus, clients.grants.erase grant⟩
  | _ => none

/-- The marks of the ports have custody of the grants. -/
def Sound (covers : γ → Set PinId) (known : Set PinId) (clients : Clients γ n) : Prop :=
  Custody covers known clients.portStatus.marked clients.grants

end Clients

/-- The pins of one port. -/
def pinsOf (port : ℕ) (pins : Set ℕ) : Set PinId :=
  {unit | unit.1 = port ∧ unit.2 ∈ pins}

/-- `taken` tests the given pins, and `take` sets their bits. -/
structure Takes (pins : Set ℕ) (taken : BitVec 8 → Bool) (take : BitVec 8 → BitVec 8) :
    Prop where
  tests : ∀ status pin, taken status = false → pin ∈ pins → status.getLsbD pin = false
  keeps : ∀ status pin, status.getLsbD pin = true → (take status).getLsbD pin = true
  sets : ∀ status pin, pin ∈ pins → pin < 8 → (take status).getLsbD pin = true

/-- `clear` clears the bits of the given pins only. -/
def Clears (pins : Set ℕ) (clear : BitVec 8 → BitVec 8) : Prop :=
  ∀ status pin, status.getLsbD pin = true → pin ∉ pins → (clear status).getLsbD pin = true

theorem takes_pin (hw : 8 ≤ w) (pinID : BitVec 8) :
    Takes {pinID.toNat} (pinTaken w pinID) (takePin w pinID) where
  tests status pin htaken hpin := by
    rw [pinTaken_eq hw] at htaken
    rw [Set.mem_singleton_iff.mp hpin]
    exact htaken
  keeps status pin hbit := by
    rw [takePin_eq hw, getLsbD_setBit, hbit, Bool.true_or]
  sets status pin hpin hlt := by
    rw [Set.mem_singleton_iff.mp hpin] at hlt ⊢
    rw [takePin_eq hw, getLsbD_setBit]
    simp [hlt]

theorem clears_pin (hw : 8 ≤ w) (pinID : BitVec 8) :
    Clears {pinID.toNat} (releasePin w pinID) := by
  intro status pin hbit hpin
  rw [releasePin_eq hw, getLsbD_clearBit, hbit]
  simpa using hpin

section Steps

variable {γ : Type} {covers : γ → Set PinId} {known : Set PinId} {clients clients' : Clients γ n}
  {kind : GpioPort → γ} {pins : Set ℕ}

/-- Marking a free port leaves every mark, and sets those of the pins taken. -/
theorem marked_subset_marked_set (htakes : Takes pins taken take) {port : ℕ} (hport : port < n) :
    portStatus.marked ∪ (pinsOf port pins ∩ tracked) ⊆
      PortStatus.marked (portStatus.set port (take portStatus[port]) hport) := by
  intro unit hunit
  rw [mem_marked_set_iff]
  split
  · rename_i hsame
    rcases hunit with hold | hnew
    · apply htakes.keeps
      rw [← mem_marked_iff hport, ← hsame]
      exact hold
    · exact htakes.sets _ _ hnew.1.2 hnew.2
  · rename_i hother
    rcases hunit with hold | hnew
    · exact hold
    · exact absurd hnew.1.1 hother

/-- A port that tests free has no mark on the pins tested. -/
theorem disjoint_marked_of_free (htakes : Takes pins taken take) {port : ℕ} (hport : port < n)
    (hfree : taken portStatus[port] = false) :
    Disjoint (pinsOf port pins) portStatus.marked := by
  rw [Set.disjoint_left]
  intro unit hunit hmarked
  obtain ⟨hsame, hpin⟩ := hunit
  have hbit := htakes.tests _ _ hfree hpin
  have hset : portStatus[port].getLsbD unit.2 = true := by
    rw [← mem_marked_iff hport, ← hsame]
    exact hmarked
  rw [hbit] at hset
  cases hset

/-- An allocation keeps custody, provided nobody holds the pins it asks for that have no
mark. -/
theorem sound_alloc (hsound : clients.Sound covers known) (htakes : Takes pins taken take)
    (hcovers : ∀ pbaddr, covers (kind ⟨pbaddr, portID, pin⟩) = pinsOf portID.toNat pins)
    (hknown : pinsOf portID.toNat pins ∩ known ⊆ tracked)
    (hunknown : ∀ held ∈ clients.grants,
      Disjoint (pinsOf portID.toNat pins \ known) (covers held))
    {handle : Option GpioPort}
    (hstep : clients.alloc kind
      (gpioAlloc ports taken take pin handle portID clients.portStatus) = some clients') :
    clients'.Sound covers known := by
  cases hcall : gpioAlloc ports taken take pin handle portID clients.portStatus with
  | fault error => simp [hcall, Clients.alloc] at hstep
  | spin => simp [hcall, Clients.alloc] at hstep
  | done ret =>
      rw [hcall] at hstep
      rcases gpioAlloc_cases hcall with ⟨hport, ⟨_, rfl⟩ | ⟨hfree, status, pbaddr, rfl, hstatus⟩⟩
      · have hsame : clients' = clients := by
          cases handle with
          | none => exact (Option.some.inj hstep).symm
          | some handle => exact (Option.some.inj hstep).symm
        rw [hsame]
        exact hsound
      · have hmarks := @marked_subset_marked_set n clients.portStatus taken take pins htakes
          portID.toNat hport
        rcases hstatus with rfl | rfl
        · cases hstep
          apply Custody.grant hsound
          · rw [hcovers]
            exact (disjoint_marked_of_free htakes hport hfree).mono_left Set.inter_subset_left
          · rw [hcovers]
            exact hunknown
          · rw [hcovers]
            apply Set.Subset.trans _ hmarks
            apply Set.union_subset_union_right
            exact Set.subset_inter Set.inter_subset_left hknown
        · cases hstep
          exact Custody.mark hsound (Set.subset_union_left.trans hmarks)

/-- A release of a handle that was granted keeps custody. -/
theorem sound_free [DecidableEq γ] (hsound : clients.Sound covers known) {grant : γ}
    (hgrant : grant ∈ clients.grants) {clear : BitVec 8 → BitVec 8} (hclear : Clears pins clear)
    {handle : GpioPort} (hcovers : covers grant = pinsOf handle.port.toNat pins)
    (hstep : clients.free grant (gpioFree clear handle clients.portStatus) = some clients') :
    clients'.Sound covers known := by
  cases hcall : gpioFree clear handle clients.portStatus with
  | fault error => simp [hcall, Clients.free] at hstep
  | spin => simp [hcall, Clients.free] at hstep
  | done ret =>
      rw [hcall] at hstep
      cases hstep
      obtain ⟨hport, rfl⟩ := gpioFree_cases hcall
      apply Custody.release hsound hgrant
      intro unit hunit
      rw [mem_marked_set_iff]
      split
      · rename_i hsame
        apply hclear
        · rw [← mem_marked_iff hport, ← hsame]
          exact hunit.1
        · intro hpin
          apply hunit.2
          rw [hcovers]
          exact ⟨hsame, hpin⟩
      · exact hunit.1

end Steps

/-- Nothing is granted at the start. -/
theorem sound_start {γ : Type} {covers : γ → Set PinId} {known : Set PinId} :
    (Clients.start : Clients γ n).Sound covers known :=
  Custody.nil

end Cyancore.Gpio
