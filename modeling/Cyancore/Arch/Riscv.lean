/-
# The RV32I fragment of the architecture code

The instructions that the trap vector and the inline assembly of `arch.h` are made of, on
one hart in machine mode: integer registers, the control and status registers that they
name, byte memory, and what the hardware does on a trap and on `mret`.
-/

import Cyancore.Math.Bits
import Cyancore.Math.Traced
import Mathlib.Logic.Function.Basic

namespace Cyancore.Riscv

open Cyancore.Math

/-- The integer registers. -/
inductive Reg
  | zero | ra | sp | gp | tp
  | t0 | t1 | t2 | t3 | t4 | t5 | t6
  | s0 | s1 | s2 | s3 | s4 | s5 | s6 | s7 | s8 | s9 | s10 | s11
  | a0 | a1 | a2 | a3 | a4 | a5 | a6 | a7
  deriving DecidableEq, Repr

/-- The control and status registers that the code names. -/
inductive Csr
  | mstatus
  | mie
  | mepc
  | mcause
  deriving DecidableEq, Repr

/-- A word. -/
abbrev Word := BitVec 32

/-- The values of the control and status registers. -/
abbrev Csrs := Csr → Word

/-! ## Interrupt enables -/

/-- `MIE` of `mstatus`. -/
abbrev mieBit : ℕ := 3

/-- `MPIE` of `mstatus`. -/
abbrev mpieBit : ℕ := 7

/-- `MSIE` of `mie`. -/
abbrev msieBit : ℕ := 3

/-- `MTIE` of `mie`. -/
abbrev mtieBit : ℕ := 7

/-- `MEIE` of `mie`. -/
abbrev meieBit : ℕ := 11

/-- `MSIE`, `MTIE` and `MEIE` of a word with the layout of `mie`. -/
def enables (mie : Word) : Bool × Bool × Bool :=
  (mie.getLsbD msieBit, mie.getLsbD mtieBit, mie.getLsbD meieBit)

/-- The mask of the three bits. -/
def enableMask : Word := bit 32 3 ||| bit 32 7 ||| bit 32 11

/-- A software, timer or external interrupt would be taken if it were pending. -/
def Csrs.deliverable (status : Csrs) : Bool :=
  (status .mstatus).getLsbD mieBit && enables (status .mie) != (false, false, false)

/-- The enables of machine interrupts are the same. -/
def Csrs.SameEnables (status status' : Csrs) : Prop :=
  (status' .mstatus).getLsbD mieBit = (status .mstatus).getLsbD mieBit ∧
    enables (status' .mie) = enables (status .mie)

instance (status status' : Csrs) : Decidable (status.SameEnables status') :=
  inferInstanceAs (Decidable (_ ∧ _))

@[simp]
theorem enables_and_enableMask (mie : Word) : enables (mie &&& enableMask) = enables mie := by
  simp [enables, enableMask, msieBit, mtieBit, meieBit]

@[simp]
theorem enables_and_not_enableMask (mie : Word) :
    enables (mie &&& ~~~enableMask) = (false, false, false) := by
  simp [enables, enableMask, msieBit, mtieBit, meieBit]

/-- Bits set over cleared ones are the bits that were set. -/
theorem enables_or_of_clear {mie mask : Word} (hclear : enables mie = (false, false, false)) :
    enables (mie ||| mask) = enables mask := by
  simp only [enables, Prod.mk.injEq] at hclear
  simp only [enables, BitVec.getLsbD_or, hclear, Bool.false_or]

/-! ## Inline assembly -/

/-- An access to a control and status register with a computed mask. -/
inductive CsrInstr
  | csrs (csr : Csr) (mask : Word)
  | csrc (csr : Csr) (mask : Word)
  deriving DecidableEq, Repr

/-- What the access does. -/
def CsrInstr.exec : CsrInstr → Csrs → Csrs
  | .csrs csr mask, status => Function.update status csr (status csr ||| mask)
  | .csrc csr mask, status => Function.update status csr (status csr &&& ~~~mask)

/-- `arch_ei`. -/
def archEi : List CsrInstr := [.csrs .mstatus (bit 32 3 ||| bit 32 7)]

/-- `arch_di`. -/
def archDi : List CsrInstr :=
  [.csrc .mstatus (bit 32 3 ||| bit 32 7), .csrc .mie enableMask]

/-- The code of a sequence of accesses. -/
def execCsr (code : List CsrInstr) (status : Csrs) : Csrs := arrive CsrInstr.exec code status

section Enables

variable (status : Csrs)

/-- `arch_ei` sets the global enable. -/
@[simp]
theorem execCsr_archEi_mie : ((execCsr archEi status) .mstatus).getLsbD mieBit = true := by
  simp [execCsr, archEi, arrive, CsrInstr.exec, mieBit]

/-- `arch_ei` leaves the single enables alone. -/
@[simp]
theorem execCsr_archEi : (execCsr archEi status) .mie = status .mie := rfl

/-- `arch_di` clears the global enable. -/
@[simp]
theorem execCsr_archDi_mie : ((execCsr archDi status) .mstatus).getLsbD mieBit = false := by
  simp [execCsr, archDi, arrive, CsrInstr.exec, mieBit]

/-- `arch_di` clears the single enables. -/
@[simp]
theorem enables_execCsr_archDi : enables ((execCsr archDi status) .mie) = (false, false, false) :=
  enables_and_not_enableMask (status .mie)

end Enables

end Cyancore.Riscv
