/-
# The bits of the platform interrupt controller

The controller has a pending bit for each interrupt and, for each core, an enable bit for
each interrupt.  Both arrays are words of 32 bits, and the driver computes the word and
the bit separately.  For the enable bits it divides by 32 in both places.  For the pending
bits it divides by 31 to find the word.
-/

import Cyancore.Basic
import Cyancore.Driver.Plic
import Cyancore.Math.BitArray

namespace Cyancore.Driver

open Cyancore.Math StatusCode

/-! ## The driver -/

/-- The registers of the controller by their offsets, and where the port says they are. -/
structure PlicPort where
  /-- `port->baddr`. -/
  baddr : ℕ
  /-- `MMIO32(port->baddr + offset)`. -/
  mmio : ℕ → BitVec 32

/-- `PLIC_IPENDING_OFFSET`. -/
def plicIpendingOffset (irq : ℕ) : ℕ := 0x00001000 + 0x04 * (irq / 31)

/-- `PLIC_IENABLE_OFFSET`. -/
def plicIenableOffset (core irq : ℕ) : ℕ := 0x00002000 + 0x80 * core + 0x04 * (irq / 32)

/-- Store to a register. -/
def PlicPort.write (port : PlicPort) (offset : ℕ) (value : BitVec 32) : PlicPort :=
  { port with mmio := Function.update port.mmio offset value }

/-- `plic_int_en`, on core `coreId`. -/
def plicIntEn (coreId irqId : ℕ) (port : PlicPort) : Outcome PlicFault (StatusCode × PlicPort) :=
  if port.baddr = 0 then .fault .panic
  else
    let irqShift := irqId % 32
    let offset := plicIenableOffset coreId irqId
    .done (success, port.write offset (setBit (port.mmio offset) irqShift))

/-- `plic_int_dis`, on core `coreId`. -/
def plicIntDis (coreId irqId : ℕ) (port : PlicPort) : Outcome PlicFault (StatusCode × PlicPort) :=
  if port.baddr = 0 then .fault .panic
  else
    let irqShift := irqId % 32
    let offset := plicIenableOffset coreId irqId
    .done (success, port.write offset (clearBit (port.mmio offset) irqShift))

/-- `plic_get_pending`. -/
def plicGetPending (irqId : ℕ) (port : PlicPort) : Outcome PlicFault Bool :=
  if port.baddr = 0 then .fault .panic
  else
    let pending := port.mmio (plicIpendingOffset irqId)
    .done (decide (pending &&& bit 32 (irqId % 32) ≠ 0))

/-! ## The controller -/

namespace PlicPort

/-- The array of pending bits. -/
def pendingWords (port : PlicPort) (k : ℕ) : BitVec 32 := port.mmio (0x1000 + 4 * k)

/-- The array of a core's enable bits. -/
def enableWords (port : PlicPort) (core k : ℕ) : BitVec 32 :=
  port.mmio (0x2000 + 0x80 * core + 4 * k)

/-- The interrupt is pending. -/
def pending (port : PlicPort) (id : ℕ) : Bool := bitAt port.pendingWords id

/-- The interrupt is enabled for a core. -/
def enabled (port : PlicPort) (core id : ℕ) : Bool := bitAt (port.enableWords core) id

end PlicPort

/-- How many interrupts a core's array has room for. -/
def plicSources : ℕ := 1024

/-- The bit of one interrupt was written for one core, and no other enable bit of this core or
of another, and no pending bit. -/
structure EnableWritten (core id : ℕ) (value : Bool) (port port' : PlicPort) : Prop where
  written : port'.enabled core id = value
  others : ∀ id', id' ≠ id → port'.enabled core id' = port.enabled core id'
  cores : id < plicSources → ∀ core' id', core' ≠ core → id' < plicSources →
    port'.enabled core' id' = port.enabled core' id'
  pending : ∀ id', id' < plicSources → port'.pending id' = port.pending id'

/-- The driver uses the bits that the controller has for an interrupt. -/
structure AddressesBits (core id : ℕ) : Prop where
  enable : ∀ port : PlicPort, port.baddr ≠ 0 →
    ∃ port', plicIntEn core id port = .done (success, port') ∧ EnableWritten core id true port port'
  disable : ∀ port : PlicPort, port.baddr ≠ 0 →
    ∃ port', plicIntDis core id port = .done (success, port') ∧
      EnableWritten core id false port port'
  pending : ∀ port : PlicPort, port.baddr ≠ 0 → plicGetPending id port = .done (port.pending id)

/-! ## Enable bits -/

variable {core id : ℕ} {port : PlicPort}

theorem mmio_write_of_ne {offset offset' : ℕ} (value : BitVec 32) (hne : offset' ≠ offset) :
    (port.write offset value).mmio offset' = port.mmio offset' :=
  Function.update_of_ne hne _ _

theorem enableWords_write (f : BitVec 32 → ℕ → BitVec 32) :
    (port.write (plicIenableOffset core id)
        (f (port.mmio (plicIenableOffset core id)) (id % 32))).enableWords core =
      updateAt (port.enableWords core) id f := by
  have hinjective : Function.Injective fun k => 0x2000 + 0x80 * core + 4 * k := by
    intro k k' heq
    simp only at heq
    omega
  exact Function.update_comp_eq_of_injective port.mmio hinjective (id / 32) _

/-- The arrays of two cores do not overlap. -/
theorem enabled_write_of_ne (value : BitVec 32) {core' id' : ℕ} (hcore : core' ≠ core)
    (hid : id < plicSources) (hid' : id' < plicSources) :
    (port.write (plicIenableOffset core id) value).enabled core' id' = port.enabled core' id' := by
  have happart : 0x2000 + 0x80 * core' + 4 * (id' / 32) ≠ plicIenableOffset core id := by
    simp only [plicSources, plicIenableOffset] at *
    omega
  simp only [PlicPort.enabled, bitAt, PlicPort.enableWords, mmio_write_of_ne value happart]

/-- The pending bits come before the enable bits. -/
theorem pending_write (value : BitVec 32) {id' : ℕ} (hid' : id' < plicSources) :
    (port.write (plicIenableOffset core id) value).pending id' = port.pending id' := by
  have happart : 0x1000 + 4 * (id' / 32) ≠ plicIenableOffset core id := by
    simp only [plicSources, plicIenableOffset] at *
    omega
  simp only [PlicPort.pending, bitAt, PlicPort.pendingWords, mmio_write_of_ne value happart]

/-- A store that changes the bit of an interrupt, and nothing else in its word. -/
theorem enableWritten_write {value : Bool} {f : BitVec 32 → ℕ → BitVec 32}
    (hbit : ∀ words : ℕ → BitVec 32, ∀ id', bitAt (updateAt words id f) id' =
      if id' = id then value else bitAt words id') :
    EnableWritten core id value port (port.write (plicIenableOffset core id)
      (f (port.mmio (plicIenableOffset core id)) (id % 32))) where
  written := by rw [PlicPort.enabled, enableWords_write, hbit, if_pos rfl]
  others id' hne := by rw [PlicPort.enabled, enableWords_write, hbit, if_neg hne, PlicPort.enabled]
  cores hid core' id' hcore hid' := enabled_write_of_ne _ hcore hid hid'
  pending id' hid' := pending_write _ hid'

theorem plicIntEn_written (core id : ℕ) (hport : port.baddr ≠ 0) :
    ∃ port', plicIntEn core id port = .done (success, port') ∧
      EnableWritten core id true port port' := by
  rw [plicIntEn, if_neg hport]
  exact ⟨_, rfl, enableWritten_write fun words => bitAt_updateAt_setBit (by decide) words id⟩

theorem plicIntDis_written (core id : ℕ) (hport : port.baddr ≠ 0) :
    ∃ port', plicIntDis core id port = .done (success, port') ∧
      EnableWritten core id false port port' := by
  rw [plicIntDis, if_neg hport]
  exact ⟨_, rfl, enableWritten_write fun words => bitAt_updateAt_clearBit words id⟩

/-! ## Pending bits -/

/-- The bit that is read. -/
theorem plicGetPending_eq (id : ℕ) (hport : port.baddr ≠ 0) :
    plicGetPending id port = .done ((port.pendingWords (id / 31)).getLsbD (id % 32)) := by
  rw [plicGetPending, if_neg hport]
  simp only [and_bit_ne_zero_iff, Bool.decide_eq_true]
  rfl

/-- Where the controller of the FE310 is. -/
def plicBase : ℕ := 0x0c000000

/-- Only one interrupt is pending. -/
def onlyPending (id : ℕ) : PlicPort where
  baddr := plicBase
  mmio offset := if offset = 0x1000 + 4 * (id / 32) then bit 32 (id % 32) else 0

theorem baddr_onlyPending (id : ℕ) : (onlyPending id).baddr ≠ 0 := by
  change plicBase ≠ 0
  decide

theorem pendingWords_onlyPending (id k : ℕ) :
    (onlyPending id).pendingWords k = if k = id / 32 then bit 32 (id % 32) else 0 := by
  by_cases hk : k = id / 32
  · rw [if_pos hk, PlicPort.pendingWords, onlyPending, hk]
    exact if_pos rfl
  · rw [if_neg hk, PlicPort.pendingWords, onlyPending]
    exact if_neg (by omega)

theorem pending_onlyPending (id : ℕ) : (onlyPending id).pending id = true := by
  rw [PlicPort.pending, bitAt, pendingWords_onlyPending, if_pos rfl, getLsbD_bit]
  simp [Nat.mod_lt]

/-- For every core and every interrupt, the driver uses the bits of the controller exactly when
the word of the pending bit comes out the same by 31 as by 32. -/
theorem addressesBits_iff (core id : ℕ) : AddressesBits core id ↔ id / 31 = id / 32 := by
  constructor
  · intro haddresses
    by_contra hword
    have hread := haddresses.pending (onlyPending id) (baddr_onlyPending id)
    rw [plicGetPending_eq id (baddr_onlyPending id), pending_onlyPending, pendingWords_onlyPending,
      if_neg hword] at hread
    simp at hread
  · intro hword
    exact {
      enable := fun port => plicIntEn_written core id
      disable := fun port => plicIntDis_written core id
      pending := fun port hport => by
        rw [plicGetPending_eq id hport, hword]
        rfl }

/-- Interrupt 31 is taken for interrupt 63. -/
theorem not_addressesBits :
    ¬ AddressesBits 0 31 ∧ plicGetPending 31 (onlyPending 31) = .done false ∧
      plicGetPending 31 (onlyPending 63) = .done true := by
  refine ⟨fun haddresses => ?_, by decide, by decide⟩
  have hread := haddresses.pending (onlyPending 31) (baddr_onlyPending 31)
  rw [pending_onlyPending] at hread
  revert hread
  decide

end Cyancore.Driver
