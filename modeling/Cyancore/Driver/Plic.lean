/-
# Handlers of the platform interrupt controller

The controller numbers its interrupts from 1 to `N_PLAT_IRQS`, and the driver prepares
each of them.  The table of handlers has `N_PLAT_IRQS` entries and is indexed by the
number itself, by the registration as well as by the dispatch, without a check.
-/

import Cyancore.Math.Outcome
import Mathlib.Tactic.Common

namespace Cyancore.Driver

open Cyancore.Math

/-- How the driver can leave its defined behaviour. -/
inductive PlicFault
  | /-- An assertion failed. -/
    panic
  | /-- `plic_irq_handler` was indexed outside its bounds. -/
    outOfTable
  deriving DecidableEq, Repr

variable {η : Type} {n : ℕ}

/-- The controller layer and the driver under it, with `N_PLAT_IRQS = n`. -/
structure Plic (η : Type) (n : ℕ) where
  /-- `ic_attached`. -/
  attached : Bool
  /-- `port->baddr`. -/
  baddr : ℕ
  /-- `plic_irq_handler`. -/
  table : Vector η n
  deriving DecidableEq

/-- The driver once it is attached: every entry points to `plat_panic_handler`. -/
def Plic.attach (platPanicHandler : η) (baddr : ℕ) : Plic η n where
  attached := true
  baddr := baddr
  table := Vector.replicate n platPanicHandler

/-- The interrupts that `plic_driver_setup` prepares. -/
def platIrqs (n : ℕ) : List ℕ := List.range' 1 n

/-- `plic_register_irq_handler`. -/
def plicRegisterIrqHandler (id : ℕ) (handler : Option η) (plic : Plic η n) :
    Outcome PlicFault (Plic η n) :=
  match handler with
  | none => .done plic
  | some handler =>
      if id = 0 then .done plic
      else if h : id < n then .done { plic with table := plic.table.set id handler h }
      else .fault .outOfTable

/-- `ic_register_interrupt_handler`. -/
def icRegisterInterruptHandler (id : ℕ) (handler : Option η) (plic : Plic η n) :
    Outcome PlicFault (Plic η n) :=
  if plic.attached && handler.isSome && id ≠ 0 then plicRegisterIrqHandler id handler plic
  else .done plic

/-- The function that `plic_irqhandler` calls when the controller is claimed and returns
`irq`. -/
def plicIrqhandler (irq : ℕ) (plic : Plic η n) : Outcome PlicFault η :=
  if plic.baddr = 0 then .fault .panic
  else if h : irq < n then .done plic.table[irq]
  else .fault .outOfTable

/-- The arguments of a call of `ic_register_interrupt_handler`. -/
structure IrqRegistration (η : Type) where
  id : ℕ
  handler : Option η

/-- Make the calls in order. -/
def icRegisterAll : List (IrqRegistration η) → Plic η n → Outcome PlicFault (Plic η n)
  | [], plic => .done plic
  | call :: calls, plic => do
      let plic ← icRegisterInterruptHandler call.id call.handler plic
      icRegisterAll calls plic

/-- The call registers a handler, and not nothing. -/
def IrqRegistration.effective (call : IrqRegistration η) : Bool :=
  call.handler.isSome && call.id ≠ 0

/-- The handler registered last for an interrupt. -/
def lastIrqFor (id : ℕ) : List (IrqRegistration η) → Option η
  | [] => none
  | call :: calls =>
      (lastIrqFor id calls).or (if call.effective && call.id = id then call.handler else none)

/-- The handler of an interrupt, where the table has an entry for it. -/
def Plic.handler? (plic : Plic η n) (id : ℕ) : Option η := plic.table[id]?

variable {plic plic' : Plic η n}

/-- A call that is not effective does nothing, and one that is stays within the table only
for a small enough number. -/
theorem icRegister_eq (hattached : plic.attached = true) (call : IrqRegistration η) :
    icRegisterInterruptHandler call.id call.handler plic =
      match call.handler with
      | none => .done plic
      | some handler =>
          if call.id = 0 then .done plic
          else if h : call.id < n then .done { plic with table := plic.table.set call.id handler h }
          else .fault .outOfTable := by
  obtain ⟨id, handler⟩ := call
  cases handler with
  | none => simp [icRegisterInterruptHandler]
  | some handler =>
      by_cases hid : id = 0
      · simp [icRegisterInterruptHandler, hid]
      · simp [icRegisterInterruptHandler, hattached, hid, plicRegisterIrqHandler]

/-- A call returns unless it is effective and out of the table. -/
theorem icRegister_returns_iff (hattached : plic.attached = true) (call : IrqRegistration η) :
    (∃ plic', icRegisterInterruptHandler call.id call.handler plic = .done plic') ↔
      (call.effective = true → call.id < n) := by
  rw [icRegister_eq hattached]
  obtain ⟨id, handler⟩ := call
  cases handler with
  | none => simp [IrqRegistration.effective]
  | some handler =>
      by_cases hid : id = 0
      · simp [IrqRegistration.effective, hid]
      · by_cases hlt : id < n
        · simp [hid, hlt]
        · simp [IrqRegistration.effective, hid, hlt]

/-- A call that returns writes the entry of its own interrupt and no other. -/
theorem handler_of_icRegister (hattached : plic.attached = true) {call : IrqRegistration η}
    (hcall : icRegisterInterruptHandler call.id call.handler plic = .done plic') (id : ℕ)
    (hid : id < n) :
    plic'.handler? id =
      if call.effective && call.id = id then call.handler else plic.handler? id := by
  rw [icRegister_eq hattached] at hcall
  obtain ⟨entry, handler⟩ := call
  cases handler with
  | none =>
      cases hcall
      simp [IrqRegistration.effective]
  | some handler =>
      by_cases hentry : entry = 0
      · simp only [hentry, if_true] at hcall
        cases hcall
        simp [IrqRegistration.effective, hentry]
      · simp only [hentry, if_false] at hcall
        split at hcall
        · cases hcall
          by_cases hsame : entry = id
          · subst hsame
            simp [Plic.handler?, IrqRegistration.effective, hentry, hid]
          · simp [Plic.handler?, IrqRegistration.effective, hsame, hid]
        · cases hcall

/-- Registration changes neither the controller layer nor the port. -/
theorem attached_of_icRegister (hattached : plic.attached = true) {call : IrqRegistration η}
    (hcall : icRegisterInterruptHandler call.id call.handler plic = .done plic') :
    plic'.attached = true ∧ plic'.baddr = plic.baddr := by
  rw [icRegister_eq hattached] at hcall
  cases hhandler : call.handler with
  | none =>
      simp only [hhandler] at hcall
      cases hcall
      exact ⟨hattached, rfl⟩
  | some handler =>
      simp only [hhandler] at hcall
      split at hcall
      · cases hcall
        exact ⟨hattached, rfl⟩
      · split at hcall
        · cases hcall
          exact ⟨hattached, rfl⟩
        · cases hcall

/-- Calls return, one after the other, unless one of them is effective and out of the
table. -/
theorem icRegisterAll_returns_iff (hattached : plic.attached = true)
    (calls : List (IrqRegistration η)) :
    (∃ plic', icRegisterAll calls plic = .done plic') ↔
      ∀ call ∈ calls, call.effective = true → call.id < n := by
  induction calls generalizing plic with
  | nil => simp [icRegisterAll]
  | cons call calls ih =>
      rw [List.forall_mem_cons, ← icRegister_returns_iff hattached]
      constructor
      · rintro ⟨last, hlast⟩
        obtain ⟨middle, hcall, hrest⟩ := Outcome.bind_eq_done_iff.mp hlast
        have hmiddle := (attached_of_icRegister hattached hcall).1
        exact ⟨⟨middle, hcall⟩, (ih hmiddle).mp ⟨last, hrest⟩⟩
      · rintro ⟨⟨middle, hcall⟩, hrest⟩
        have hmiddle := (attached_of_icRegister hattached hcall).1
        obtain ⟨last, hlast⟩ := (ih hmiddle).mpr hrest
        exact ⟨last, Outcome.bind_eq_done_iff.mpr ⟨middle, hcall, hlast⟩⟩

/-- After any calls an entry holds what was registered last for it. -/
theorem handler_of_icRegisterAll (hattached : plic.attached = true)
    {calls : List (IrqRegistration η)} (hrun : icRegisterAll calls plic = .done plic') {id : ℕ}
    (hid : id < n) :
    plic'.attached = true ∧ plic'.baddr = plic.baddr ∧
      plic'.handler? id = (lastIrqFor id calls).or (plic.handler? id) := by
  induction calls generalizing plic with
  | nil =>
      cases hrun
      exact ⟨hattached, rfl, rfl⟩
  | cons call calls ih =>
      obtain ⟨middle, hcall, hrest⟩ := Outcome.bind_eq_done_iff.mp hrun
      obtain ⟨hmiddle, hbaddr⟩ := attached_of_icRegister hattached hcall
      obtain ⟨hlast, hbaddr', hhandler⟩ := ih hmiddle hrest
      refine ⟨hlast, hbaddr'.trans hbaddr, ?_⟩
      rw [hhandler, handler_of_icRegister hattached hcall id hid, lastIrqFor, Option.or_assoc]
      split
      · rename_i heffective
        have hsome : call.handler.isSome = true := by
          simp only [IrqRegistration.effective, Bool.and_eq_true] at heffective
          exact heffective.1.1
        rw [Option.or_of_isSome hsome]
      · rfl

/-- The dispatch calls what the entry holds. -/
theorem plicIrqhandler_of_lt (hbaddr : plic.baddr ≠ 0) {id : ℕ} (hid : id < n) {handler : η}
    (hhandler : plic.handler? id = some handler) : plicIrqhandler id plic = .done handler := by
  rw [plicIrqhandler, if_neg hbaddr, dif_pos hid]
  simpa [Plic.handler?, hid] using hhandler

/-- The controller calls the handler registered last, or the panic handler, and a further
registration does not change it for another interrupt, exactly when no effective
registration and no interrupt has a number from `N_PLAT_IRQS` on. -/
theorem plic_dispatch_iff (platPanicHandler : η) {baddr : ℕ} (hbaddr : baddr ≠ 0)
    (calls : List (IrqRegistration η)) (id : ℕ) :
    (∃ plic : Plic η n, icRegisterAll calls (.attach platPanicHandler baddr) = .done plic ∧
      plicIrqhandler id plic = .done ((lastIrqFor id calls).getD platPanicHandler) ∧
      ∀ (call : IrqRegistration η) (plic' : Plic η n), call.id ≠ id →
        icRegisterInterruptHandler call.id call.handler plic = .done plic' →
          plicIrqhandler id plic' = plicIrqhandler id plic) ↔
      (∀ call ∈ calls, call.effective = true → call.id < n) ∧ id < n := by
  rw [← @icRegisterAll_returns_iff η n (.attach platPanicHandler baddr) rfl calls]
  constructor
  · rintro ⟨plic, hrun, hcall, _⟩
    refine ⟨⟨plic, hrun⟩, ?_⟩
    by_contra hid
    unfold plicIrqhandler at hcall
    simp only [dif_neg hid] at hcall
    split at hcall
    · cases hcall
    · cases hcall
  · rintro ⟨⟨plic, hrun⟩, hid⟩
    obtain ⟨hattached, hport, hhandler⟩ := handler_of_icRegisterAll rfl hrun hid
    have hstart : (Plic.attach platPanicHandler baddr : Plic η n).handler? id =
        some platPanicHandler := by
      simp [Plic.handler?, Plic.attach, hid]
    have hentry : plic.handler? id = some ((lastIrqFor id calls).getD platPanicHandler) := by
      rw [hhandler, hstart]
      cases lastIrqFor id calls <;> rfl
    have hplic : plic.baddr ≠ 0 := by
      rw [hport]
      exact hbaddr
    have hcall := plicIrqhandler_of_lt hplic hid hentry
    refine ⟨plic, hrun, hcall, ?_⟩
    intro call plic' hother hregister
    obtain ⟨_, hport'⟩ := attached_of_icRegister hattached hregister
    have hentry' := handler_of_icRegister hattached hregister id hid
    rw [if_neg (by simp [hother]), hentry] at hentry'
    rw [hcall]
    apply plicIrqhandler_of_lt _ hid hentry'
    rw [hport']
    exact hplic

/-- Two interrupts of three, each with its own handler. -/
theorem plic_dispatch_two :
    ∃ plic : Plic ℕ 3, icRegisterAll [⟨1, some 10⟩, ⟨2, some 20⟩] (.attach 99 0x0c000000) =
      .done plic ∧ plicIrqhandler 2 plic = .done 20 := by
  obtain ⟨plic, hrun, hcall, _⟩ :=
    (@plic_dispatch_iff ℕ 3 99 0x0c000000 (by decide) [⟨1, some 10⟩, ⟨2, some 20⟩] 2).mpr
      ⟨by decide, by decide⟩
  exact ⟨plic, hrun, hcall⟩

/-- The last interrupt that the driver prepares has no entry. -/
theorem not_plic_dispatch :
    ¬ ∀ (n platPanicHandler baddr : ℕ) (calls : List (IrqRegistration ℕ)) (id : ℕ),
      baddr ≠ 0 → id ∈ platIrqs n → (∀ call ∈ calls, call.id ∈ platIrqs n) →
        ∃ plic : Plic ℕ n, icRegisterAll calls (.attach platPanicHandler baddr) = .done plic ∧
          plicIrqhandler id plic = .done ((lastIrqFor id calls).getD platPanicHandler) := by
  intro hclaim
  obtain ⟨plic, hrun, hcall⟩ := hclaim 52 99 0x0c000000 [] 52 (by decide) (by decide)
    (fun _ hmem => by cases hmem)
  cases hrun
  revert hcall
  decide

end Cyancore.Driver
