/-
# Traps of the RISC-V port

A trap saves the interrupted registers in a frame on the stack, calls `exception_handler`
with the frame, and restores the registers from it.  The vector is assembly and is given
as instructions; `exception_handler` and what it calls are C and are given by their
meaning on the frame's memory and on the statics of the file.  The two sides know the
frame by different means: the assembly by literal offsets, C by the layout of a structure.
-/

import Cyancore.Arch.Riscv
import Cyancore.Math.WordMemory

namespace Cyancore.Riscv

open Cyancore.Math

/-! ## The frame -/

/-- The members of `context_frame_t` before its padding. -/
inductive Field
  | mepc | mstatus | ra | t0 | t1 | t2
  | a0 | a1 | a2 | a3 | a4 | a5 | a6 | a7
  | t3 | t4 | t5 | t6 | mcause
  deriving DecidableEq, Repr

/-- The order of the members in `context_frame_t`. -/
def contextFrame : List Field :=
  [ .mepc, .mstatus, .ra, .t0,
    .t1, .t2, .a0, .a1, .a2, .a3,
    .a4, .a5, .a6, .a7, .t3, .t4,
    .t5, .t6, .mcause ]

/-- Where a member is. -/
def Field.offset (field : Field) : Word := BitVec.ofNat 32 (4 * contextFrame.idxOf field)

/-- `sizeof(context_frame_t)`. -/
def frameSize : ℕ := 96

/-- The members of a frame in memory. -/
def frameAt (mem : ByteSpace) (frame : Word) (field : Field) : Word :=
  mem.loadWord (frame + field.offset)

/-! ## The statics of the kernel -/

/-- The functions that the tables of handlers can point to. -/
inductive Isr
  | archPanicHandler
  | archUnhandledIrq
  | archVcallHandler
  | client (id : ℕ)
  deriving DecidableEq, Repr

/-- Memory, and the statics of `exception_handler.c`.  A row of a table is a core's. -/
structure Kernel where
  mem : ByteSpace
  exhandler : ℕ → ℕ → Option Isr
  irqhandler : ℕ → ℕ → Option Isr
  localFrame : ℕ → Option Word

/-- The sizes that the platform's configuration gives. -/
structure TrapConfig where
  nCores : ℕ
  nExcep : ℕ
  nIrq : ℕ
  deriving DecidableEq, Repr

/-- How C code of the trap path can leave its defined behaviour. -/
inductive TrapFault
  | /-- An assertion failed. -/
    panic
  | /-- A table was indexed outside its bounds. -/
    outOfTable
  | /-- A null pointer was called or followed. -/
    nullPointer
  deriving DecidableEq, Repr

namespace Kernel

/-- `in_isr`. -/
def inIsr (cpuid : ℕ) (kernel : Kernel) : Bool := (kernel.localFrame cpuid).isSome

/-- `set_context_frame`. -/
def setContextFrame (cpuid : ℕ) (frame : Option Word) (kernel : Kernel) : Kernel :=
  { kernel with localFrame := Function.update kernel.localFrame cpuid frame }

/-- `get_context_frame`. -/
def getContextFrame (cpuid : ℕ) (kernel : Kernel) : Option Word := kernel.localFrame cpuid

end Kernel

/-- Write an entry of a table. -/
def setEntry (table : ℕ → ℕ → Option Isr) (cpuid id : ℕ) (handler : Option Isr) :
    ℕ → ℕ → Option Isr :=
  Function.update table cpuid (Function.update (table cpuid) id handler)

/-- `arch_register_interrupt_handler`, on core `cpuid`. -/
def archRegisterInterruptHandler (config : TrapConfig) (cpuid id : ℕ) (handler : Option Isr)
    (kernel : Kernel) : Outcome TrapFault Kernel :=
  if id < config.nExcep then
    .done { kernel with exhandler := setEntry kernel.exhandler cpuid id handler }
  else
    .fault .panic

/-- `local_register_interrupt_handler`, on core `cpuid`. -/
def localRegisterInterruptHandler (config : TrapConfig) (cpuid id : ℕ) (handler : Option Isr)
    (kernel : Kernel) : Outcome TrapFault Kernel :=
  if id < config.nIrq then
    .done { kernel with irqhandler := setEntry kernel.irqhandler cpuid id handler }
  else
    .fault .panic

/-- The function that `table[cpuid][cause]()` calls. -/
def entryAt (nCores size : ℕ) (table : ℕ → ℕ → Option Isr) (cpuid cause : ℕ) :
    Outcome TrapFault Isr :=
  if cpuid < nCores ∧ cause < size then
    match table cpuid cause with
    | some handler => .done handler
    | none => .fault .nullPointer
  else
    .fault .outOfTable

/-- `mcause & (1U << 31)`. -/
def isInterrupt (mcause : Word) : Bool := mcause.getLsbD 31

/-- `mcause & ~(1U << 31)`. -/
def causeOf (mcause : Word) : ℕ := (clearBit mcause 31).toNat

/-- The function that `exception_handler` calls. -/
def dispatch (config : TrapConfig) (cpuid : ℕ) (mcause : Word) (kernel : Kernel) :
    Outcome TrapFault Isr :=
  if isInterrupt mcause then
    entryAt config.nCores config.nIrq kernel.irqhandler cpuid (causeOf mcause)
  else
    entryAt config.nCores config.nExcep kernel.exhandler cpuid (causeOf mcause)

/-- `frame->mepc += (MMIO8(frame->mepc) & 0x2) ? 4 : 2`; `text` is the program memory, which
nothing writes. -/
def advanceMepc (text : ByteSpace) (frame : Word) (mem : ByteSpace) : ByteSpace :=
  let mepc := frameAt mem frame .mepc
  mem.storeWord (frame + Field.mepc.offset) (mepc + if (text mepc).getLsbD 1 then 4 else 2)

/-- `exception_handler`, where `run` is what the handlers do. -/
def exceptionHandler (config : TrapConfig) (text : ByteSpace) (cpuid : ℕ)
    (run : Isr → Kernel → Outcome TrapFault Kernel) (mcause frame : Word) (kernel : Kernel) :
    Outcome TrapFault Kernel := do
  let kernel := kernel.setContextFrame cpuid (some frame)
  let handler ← dispatch config cpuid mcause kernel
  let kernel ← run handler kernel
  let kernel :=
    if isInterrupt mcause then kernel
    else { kernel with mem := advanceMepc text frame kernel.mem }
  .done (kernel.setContextFrame cpuid none)

/-! ## Visor calls -/

/-- `vret_t`. -/
structure VRet where
  p : Word
  size : Word
  status : Word
  deriving DecidableEq, Repr

/-- What a callback does, given its arguments and `ret` as it is on entry. -/
abbrev Callback := Word → Word → Word → VRet → Kernel → VRet × Kernel

/-- `vcall_t`. -/
structure Vcall where
  id : Word
  callback : Option Callback

/-- `get_callback_from_table`. -/
def getCallbackFromTable : List Vcall → Word → Option Callback
  | [], _ => none
  | entry :: table, id => if entry.id = id then entry.callback else getCallbackFromTable table id

/-- `error_vcall_code_inval` in a register. -/
def errorVcallCodeInval : Word := 0x0301

/-- `vcall_handler`. -/
def vcallHandler (table : List Vcall) (id a0 a1 a2 : Word) (kernel : Kernel) : VRet × Kernel :=
  match getCallbackFromTable table id with
  | none => (⟨0, 0, errorVcallCodeInval⟩, kernel)
  | some callback => callback a0 a1 a2 ⟨0, 0, errorVcallCodeInval⟩ kernel

/-- `vcall_handler` on the arguments that `arch_vcall_handler` takes from the frame. -/
def vcallFrame (table : List Vcall) (frame : Word) (kernel : Kernel) : VRet × Kernel :=
  vcallHandler table (frameAt kernel.mem frame .a0) (frameAt kernel.mem frame .a1)
    (frameAt kernel.mem frame .a2) (frameAt kernel.mem frame .a3) kernel

/-- `arch_vcall_handler`. -/
def archVcallHandler (table : List Vcall) (cpuid : ℕ) (kernel : Kernel) :
    Outcome TrapFault Kernel :=
  match kernel.getContextFrame cpuid with
  | none => .fault .nullPointer
  | some frame =>
      let (vres, kernel) := vcallFrame table frame kernel
      let mem := kernel.mem.storeWord (frame + Field.a0.offset) vres.p
      let mem := mem.storeWord (frame + Field.a1.offset) vres.size
      let mem := mem.storeWord (frame + Field.a2.offset) vres.status
      .done { kernel with mem := mem }

/-! ## The vector -/

/-- The instructions of `exception_handler_base`, but for the call and `mret`. -/
inductive Instr
  | addi (rd rs : Reg) (imm : Word)
  | sw (src : Reg) (offset : Word) (base : Reg)
  | lw (dst : Reg) (offset : Word) (base : Reg)
  | csrr (rd : Reg) (csr : Csr)
  | csrw (csr : Csr) (rs : Reg)
  | mv (rd rs : Reg)
  deriving DecidableEq, Repr

/-- A hart, and the kernel that it runs. -/
structure Hart where
  regs : Reg → Word
  csrs : Csrs
  pc : Word
  kernel : Kernel

/-- Write a register; `zero` stays what it is. -/
def Hart.setReg (hart : Hart) (rd : Reg) (value : Word) : Hart :=
  if rd = .zero then hart else { hart with regs := Function.update hart.regs rd value }

/-- Write to memory. -/
def Hart.setMem (hart : Hart) (mem : ByteSpace) : Hart :=
  { hart with kernel := { hart.kernel with mem := mem } }

/-- One instruction.  The place in the vector is the place in the list. -/
def Instr.exec : Instr → Hart → Hart
  | .addi rd rs imm, hart => hart.setReg rd (hart.regs rs + imm)
  | .sw src offset base, hart =>
      hart.setMem (hart.kernel.mem.storeWord (hart.regs base + offset) (hart.regs src))
  | .lw dst offset base, hart =>
      hart.setReg dst (hart.kernel.mem.loadWord (hart.regs base + offset))
  | .csrr rd csr, hart => hart.setReg rd (hart.csrs csr)
  | .csrw csr rs, hart => { hart with csrs := Function.update hart.csrs csr (hart.regs rs) }
  | .mv rd rs, hart => hart.setReg rd (hart.regs rs)

/-- Straight-line code. -/
def execAll (code : List Instr) (hart : Hart) : Hart := arrive Instr.exec code hart

/-- The macro `PROLOGUE`. -/
def prologue : List Instr :=
  [ .addi .sp .sp (-96),
    .sw .t6 68 .sp,
    .sw .t5 64 .sp,
    .sw .t4 60 .sp,
    .sw .t3 56 .sp,
    .sw .a7 52 .sp,
    .sw .a6 48 .sp,
    .sw .a5 44 .sp,
    .sw .a4 40 .sp,
    .sw .a3 36 .sp,
    .sw .a2 32 .sp,
    .sw .a1 28 .sp,
    .sw .a0 24 .sp,
    .sw .t2 20 .sp,
    .sw .t1 16 .sp,
    .sw .t0 12 .sp,
    .sw .ra 8 .sp,
    .csrr .t0 .mstatus,
    .sw .t0 4 .sp,
    .csrr .t0 .mepc,
    .sw .t0 0 .sp ]

/-- The macro `EPILOGUE`. -/
def epilogue : List Instr :=
  [ .lw .t0 0 .sp,
    .csrw .mepc .t0,
    .lw .t0 4 .sp,
    .csrw .mstatus .t0,
    .lw .ra 8 .sp,
    .lw .t0 12 .sp,
    .lw .t1 16 .sp,
    .lw .t2 20 .sp,
    .lw .a0 24 .sp,
    .lw .a1 28 .sp,
    .lw .a2 32 .sp,
    .lw .a3 36 .sp,
    .lw .a4 40 .sp,
    .lw .a5 44 .sp,
    .lw .a6 48 .sp,
    .lw .a7 52 .sp,
    .lw .t3 56 .sp,
    .lw .t4 60 .sp,
    .lw .t5 64 .sp,
    .lw .t6 68 .sp,
    .addi .sp .sp 96 ]

/-- The arguments of `exception_handler`. -/
def vectorArgs : List Instr :=
  [ .csrr .a0 .mcause,
    .sw .a0 72 .sp,
    .mv .a1 .sp ]

/-- Move bit `src` of `word` to bit `dst`. -/
def copyBit (word : Word) (dst src : ℕ) : Word :=
  if word.getLsbD src then setBit word dst else clearBit word dst

/-- What the hardware does on a trap taken in machine mode; the mode itself is not followed. -/
def Hart.trap (hart : Hart) (cause : Word) : Hart :=
  { hart with
    csrs := fun
      | .mepc => hart.pc
      | .mcause => cause
      | .mstatus => clearBit (copyBit (hart.csrs .mstatus) mpieBit mieBit) mieBit
      | .mie => hart.csrs .mie }

/-- `mret`. -/
def Hart.mret (hart : Hart) : Hart :=
  { hart with
    pc := hart.csrs .mepc
    csrs := Function.update hart.csrs .mstatus
      (setBit (copyBit (hart.csrs .mstatus) mieBit mpieBit) mpieBit) }

end Cyancore.Riscv
