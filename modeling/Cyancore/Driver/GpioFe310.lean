/-
# Pins of the FE310

The FE310 has one port of 32 pins, and a byte of `port_status` for it: the bit of a pin from
8 on is computed as an `int` and lost in the store.  Such a pin is never seen as taken.
-/

import Cyancore.Driver.Gpio

namespace Cyancore.Gpio.Fe310

open Cyancore.Math

variable {n : ℕ}

/-- `gpio_pin_alloc`. -/
def gpioPinAlloc (ports : List GpioModule) (port : Option GpioPort) (portID pinID : BitVec 8)
    (portStatus : PortStatus n) : Outcome GpioFault (GpioReturn n) :=
  shifted 32 pinID <|
    gpioAlloc ports (pinTaken 32 pinID) (takePin 32 pinID) pinID port portID portStatus

/-- `gpio_pin_free`. -/
def gpioPinFree (port : Option GpioPort) (portStatus : PortStatus n) :
    Outcome GpioFault (GpioReturn n) :=
  match port with
  | none => .fault .nullPointer
  | some port => shifted 32 port.pin <| gpioFree (releasePin 32 port.pin) port portStatus

/-! ## Runs of the clients -/

/-- A call, with the handle it is given. -/
inductive GpioCall
  | pinAlloc (port : GpioPort) (portID pinID : BitVec 8)
  | pinFree (port : GpioPort)
  deriving DecidableEq, Repr

/-- Make a call. -/
def next (ports : List GpioModule) : GpioCall → Clients GpioPort n → Option (Clients GpioPort n)
  | .pinAlloc port portID pinID, clients =>
      clients.alloc id (gpioPinAlloc ports (some port) portID pinID clients.portStatus)
  | .pinFree port, clients => clients.free port (gpioPinFree (some port) clients.portStatus)

/-- The clients of a platform. -/
def gpioSystem (n : ℕ) (ports : List GpioModule) :
    TransitionSystem (Clients GpioPort n) GpioCall :=
  .ofNext (· = .start) (next ports)

/-- Ports and pins that exist, and handles freed once by those they were granted to. -/
def Allowed : GpioCall → Clients GpioPort n → Prop
  | .pinAlloc _ portID pinID, _ => portID.toNat < n ∧ pinID.toNat < 32
  | .pinFree port, clients => port ∈ clients.grants

instance (call : GpioCall) (clients : Clients GpioPort n) : Decidable (Allowed call clients) :=
  match call with
  | .pinAlloc _ portID pinID => inferInstanceAs (Decidable (portID.toNat < n ∧ pinID.toNat < 32))
  | .pinFree port => inferInstanceAs (Decidable (port ∈ clients.grants))

/-- The pin of a handle. -/
def heldPin (handle : GpioPort) : PinId := (handle.port.toNat, handle.pin.toNat)

/-- A pin without a bit is asked for only while nobody holds it. -/
def Recorded : GpioCall → Clients GpioPort n → Prop
  | .pinAlloc _ portID pinID, clients =>
      8 ≤ pinID.toNat → (portID.toNat, pinID.toNat) ∉ clients.grants.map heldPin
  | .pinFree _, _ => True

instance (call : GpioCall) (clients : Clients GpioPort n) : Decidable (Recorded call clients) :=
  match call with
  | .pinAlloc _ portID pinID => inferInstanceAs (Decidable
      (8 ≤ pinID.toNat → (portID.toNat, pinID.toNat) ∉ clients.grants.map heldPin))
  | .pinFree _ => inferInstanceAs (Decidable True)

/-- The pins of a grant. -/
def covers (handle : GpioPort) : Set PinId := pinsOf handle.port.toNat {handle.pin.toNat}

variable {ports : List GpioModule} {clients clients' : Clients GpioPort n}

theorem mem_covers_iff {handle : GpioPort} {unit : PinId} :
    unit ∈ covers handle ↔ unit = heldPin handle := by
  obtain ⟨port, pin⟩ := unit
  simp [covers, pinsOf, heldPin]

/-- One call keeps custody of the pins. -/
theorem sound_next {call : GpioCall} (hsound : clients.Sound covers tracked)
    (hallowed : Allowed call clients) (hrecorded : Recorded call clients)
    (hstep : next ports call clients = some clients') : clients'.Sound covers tracked := by
  cases call with
  | pinAlloc port portID pinID =>
      simp only [next, gpioPinAlloc, shifted, hallowed.2, if_true] at hstep
      apply sound_alloc hsound (takes_pin (by decide) pinID) _ Set.inter_subset_right _ hstep
      · intro pbaddr
        rfl
      · intro held hheld
        rw [Set.disjoint_left]
        intro unit hunit hother
        have hpin : unit = (portID.toNat, pinID.toNat) := Prod.ext hunit.1.1 hunit.1.2
        have hwide : 8 ≤ pinID.toNat := by
          have hlow : ¬ unit.2 < 8 := hunit.2
          rw [hpin] at hlow
          exact Nat.le_of_not_lt hlow
        apply hrecorded hwide
        rw [← hpin, mem_covers_iff.mp hother]
        exact List.mem_map_of_mem hheld
  | pinFree port =>
      simp only [next, gpioPinFree, shifted] at hstep
      split at hstep
      · exact sound_free hsound hallowed (clears_pin (by decide) port.pin) rfl hstep
      · cases hstep

/-- Exclusive grants are of different pins. -/
theorem nodup_heldPin_of_sound (hsound : clients.Sound covers tracked) :
    (clients.grants.map heldPin).Nodup := by
  rw [List.nodup_iff_pairwise_ne, List.pairwise_map]
  apply hsound.exclusive.imp
  intro first second hdisjoint hsame
  apply Set.disjoint_left.mp hdisjoint (mem_covers_iff.mpr rfl)
  rw [hsame]
  exact mem_covers_iff.mpr rfl

/-- A held pin with a bit is refused. -/
theorem gpioPinAlloc_of_held (hsound : clients.Sound covers tracked) {held : GpioPort}
    (hheld : held ∈ clients.grants) (hpin : held.pin.toNat < 8) (port : GpioPort) :
    gpioPinAlloc ports (some port) held.port held.pin clients.portStatus =
      .done ⟨.errorDriverBusy, some port, clients.portStatus⟩ := by
  have hmarked : heldPin held ∈ clients.portStatus.marked :=
    hsound.kept held hheld ⟨mem_covers_iff.mpr rfl, hpin⟩
  have hport : held.port.toNat < n := (bounds_of_mem_marked hmarked).1
  rw [gpioPinAlloc, shifted, if_pos (by omega)]
  apply gpioAlloc_of_taken hport
  rw [pinTaken_eq (by decide)]
  exact (mem_marked_iff hport).mp hmarked

/-- A pin without a bit is never refused. -/
theorem gpioPinAlloc_ne_busy {portStatus : PortStatus n} {portID pinID : BitVec 8}
    (hpin : 8 ≤ pinID.toNat) (port : Option GpioPort) {ret : GpioReturn n}
    (hcall : gpioPinAlloc ports port portID pinID portStatus = .done ret) :
    ret.status ≠ .errorDriverBusy := by
  unfold gpioPinAlloc shifted at hcall
  split at hcall
  · obtain ⟨hport, ⟨htaken, _⟩ | ⟨_, status, pbaddr, rfl, hstatus⟩⟩ := gpioAlloc_cases hcall
    · rw [pinTaken_eq (by decide), BitVec.getLsbD_of_ge _ _ hpin] at htaken
      cases htaken
    · intro hbusy
      rcases hstatus with rfl | rfl
      · cases hbusy
      · cases hbusy
  · cases hcall

/-- In every run that asks for pins without a bit only while nobody holds them, nobody holds
another's pin; and asking for a held pin is refused exactly if the pin has a bit. -/
theorem pins_exclusive {ports : List GpioModule} {clients : Clients GpioPort n}
    (hreach : (gpioSystem n ports).Reachable
      (fun call clients => Allowed call clients ∧ Recorded call clients) clients) :
    (clients.grants.map heldPin).Nodup ∧
      ∀ held ∈ clients.grants, ∀ port : GpioPort,
        gpioPinAlloc ports (some port) held.port held.pin clients.portStatus =
          .done ⟨.errorDriverBusy, some port, clients.portStatus⟩ ↔ held.pin.toNat < 8 := by
  have hsound : clients.Sound covers tracked := by
    apply hreach.invariant (fun clients => clients.Sound covers tracked)
    · rintro _ rfl
      exact sound_start
    · intro call before after hbefore hguard hstep
      exact sound_next hbefore hguard.1 hguard.2 hstep
  refine ⟨nodup_heldPin_of_sound hsound, ?_⟩
  intro held hheld port
  constructor
  · intro hbusy
    by_contra hwide
    exact gpioPinAlloc_ne_busy (Nat.le_of_not_lt hwide) _ hbusy rfl
  · intro hpin
    exact gpioPinAlloc_of_held hsound hheld hpin port

/-- The port of the FE310. -/
def fe310Ports : List GpioModule := [⟨0x5000, 0x10012000⟩]

/-- A pin with a bit and a pin without. -/
theorem pins_exclusive_two :
    ∃ clients : Clients GpioPort 1, clients.grants.length = 2 ∧
      (clients.grants.map heldPin).Nodup := by
  have hstart : (gpioSystem 1 fe310Ports).Reachable
      (fun call clients => Allowed call clients ∧ Recorded call clients) .start :=
    .start rfl
  have htest : (TransitionSystem.replay (next fe310Ports)
      (fun call clients => Allowed call clients ∧ Recorded call clients)
      [.pinAlloc ⟨0, 0, 0⟩ 0 3, .pinAlloc ⟨0, 0, 0⟩ 0 17] .start).any
        (fun clients : Clients GpioPort 1 => clients.grants.length = 2) = true := by
    decide
  obtain ⟨clients, hreach, hclients⟩ := hstart.exists_replay htest
  exact ⟨clients, of_decide_eq_true hclients, (pins_exclusive hreach).1⟩

/-- Pin 8 is granted twice. -/
theorem not_pins_exclusive :
    ¬ ∀ (n : ℕ) (ports : List GpioModule) (clients : Clients GpioPort n),
      (gpioSystem n ports).Reachable Allowed clients → (clients.grants.map heldPin).Nodup := by
  intro hclaim
  have hstart : (gpioSystem 1 fe310Ports).Reachable Allowed .start := .start rfl
  have htest : (TransitionSystem.replay (next fe310Ports) Allowed
      [.pinAlloc ⟨0, 0, 0⟩ 0 8, .pinAlloc ⟨0, 0, 0⟩ 0 8] .start).any
        (fun clients : Clients GpioPort 1 => ¬ (clients.grants.map heldPin).Nodup) = true := by
    decide
  obtain ⟨clients, hreach, hclients⟩ := hstart.exists_replay htest
  exact of_decide_eq_true hclients (hclaim 1 fe310Ports clients hreach)

end Cyancore.Gpio.Fe310
