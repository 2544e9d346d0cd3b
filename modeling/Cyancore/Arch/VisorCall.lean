/-
# The round trip of a visor call

`ecall` traps to the vector, the vector calls compiled C code with the frame, the C code
leaves its results in the frame, and the vector returns behind the `ecall` with what the
frame holds.  Of the compiled code only the calling convention is known: it keeps the
callee-saved registers, and it leaves the frame as the C code means to.
-/

import Cyancore.Arch.Trap
import Mathlib.Data.List.Basic

namespace Cyancore.Riscv

open Cyancore.Math

/-- Registers that a call leaves alone; the remaining ones it may overwrite. -/
def Reg.calleeSaved : Reg → Bool
  | .zero | .sp | .gp | .tp => true
  | .s0 | .s1 | .s2 | .s3 | .s4 | .s5 | .s6 | .s7 | .s8 | .s9 | .s10 | .s11 => true
  | _ => false

/-- Code compiled from a function of a word and a frame, called with the arguments in `a0`
and `a1`. -/
structure Compiled (meaning : Word → Word → Kernel → Outcome TrapFault Kernel) where
  call : Hart → Hart
  /-- The calling convention. -/
  saved : ∀ hart reg, reg.calleeSaved = true → (call hart).regs reg = hart.regs reg
  /-- The frame belongs to the caller, so no stack of the callee overlaps it. -/
  frame : ∀ hart kernel, meaning (hart.regs .a0) (hart.regs .a1) hart.kernel = .done kernel →
    ∀ i < frameSize, (call hart).kernel.mem (hart.regs .a1 + BitVec.ofNat 32 i) =
      kernel.mem (hart.regs .a1 + BitVec.ofNat 32 i)

/-- What the handlers do: `arch_vcall_handler` is known, the others are not. -/
def runIsr (table : List Vcall) (cpuid : ℕ) (client : Isr → Kernel → Outcome TrapFault Kernel) :
    Isr → Kernel → Outcome TrapFault Kernel
  | .archVcallHandler => archVcallHandler table cpuid
  | handler => client handler

/-- What a hart runs on: the configuration, the program memory, its number, the table of
calls and the handlers that are not modelled. -/
structure Platform where
  config : TrapConfig
  text : ByteSpace
  cpuid : ℕ
  table : List Vcall
  client : Isr → Kernel → Outcome TrapFault Kernel

/-- `exception_handler` on the platform. -/
def Platform.exceptionHandler (platform : Platform) :
    Word → Word → Kernel → Outcome TrapFault Kernel :=
  Riscv.exceptionHandler platform.config platform.text platform.cpuid
    (runIsr platform.table platform.cpuid platform.client)

/-- The cause of an `ecall` in machine mode. -/
def ecallCause : Word := 11

/-- The encoding of `ecall`. -/
def ecall : Word := 0x00000073

/-- `exception_handler_base` up to the call. -/
def Hart.enter (hart : Hart) : Hart := execAll (prologue ++ vectorArgs) hart

/-- `exception_handler_base` after the call. -/
def Hart.leave (hart : Hart) : Hart := (execAll epilogue hart).mret

/-- An `ecall`, to where it resumes. -/
def Platform.visorCall (platform : Platform) (compiled : Compiled platform.exceptionHandler)
    (hart : Hart) : Hart :=
  (compiled.call (hart.trap ecallCause).enter).leave

/-! ## Frames in memory -/

theorem offset_toNat (field : Field) : field.offset.toNat = 4 * contextFrame.idxOf field := by
  cases field <;> rfl

theorem offset_lt (field : Field) : field.offset.toNat + 4 ≤ frameSize := by
  cases field <;> decide

theorem mem_contextFrame (field : Field) : field ∈ contextFrame := by
  cases field <;> decide

/-- Writing a member leaves the others alone. -/
@[simp]
theorem frameAt_storeWord (mem : ByteSpace) (frame value : Word) (field : Field) :
    frameAt (mem.storeWord (frame + field.offset) value) frame =
      Function.update (frameAt mem frame) field value := by
  ext1 field'
  by_cases hfield : field' = field
  · subst hfield
    rw [Function.update_self, frameAt, ByteSpace.loadWord_storeWord]
  · rw [Function.update_of_ne hfield, frameAt, frameAt]
    have hidx : contextFrame.idxOf field' ≠ contextFrame.idxOf field :=
      fun h => hfield ((List.idxOf_inj (mem_contextFrame field')).mp h)
    have h := offset_toNat field
    have h' := offset_toNat field'
    have hlt := offset_lt field
    have hlt' := offset_lt field'
    simp only [frameSize] at hlt hlt'
    apply ByteSpace.loadWord_storeWord_of_apart
    · bv_omega
    · bv_omega

/-- The members depend on the bytes of the frame alone. -/
theorem frameAt_congr {mem mem' : ByteSpace} {frame : Word}
    (hagree : ∀ i < frameSize, mem' (frame + BitVec.ofNat 32 i) = mem (frame + BitVec.ofNat 32 i)) :
    frameAt mem' frame = frameAt mem frame := by
  ext1 field
  apply ByteSpace.loadWord_congr
  intro i hi
  have hlt := offset_lt field
  have hsum : frame + field.offset + BitVec.ofNat 32 i =
      frame + BitVec.ofNat 32 (field.offset.toNat + i) := by
    simp only [frameSize] at hlt
    bv_omega
  rw [hsum]
  exact hagree _ (by omega)

/-! ## The vector -/

/-- The frame that the stack pointer points to. -/
def Hart.frame (hart : Hart) : Field → Word := frameAt hart.kernel.mem (hart.regs .sp)

/-- What the vector saves. -/
def Hart.toSave (hart : Hart) : Field → Word
  | .mepc => hart.csrs .mepc
  | .mstatus => hart.csrs .mstatus
  | .ra => hart.regs .ra
  | .t0 => hart.regs .t0
  | .t1 => hart.regs .t1
  | .t2 => hart.regs .t2
  | .a0 => hart.regs .a0
  | .a1 => hart.regs .a1
  | .a2 => hart.regs .a2
  | .a3 => hart.regs .a3
  | .a4 => hart.regs .a4
  | .a5 => hart.regs .a5
  | .a6 => hart.regs .a6
  | .a7 => hart.regs .a7
  | .t3 => hart.regs .t3
  | .t4 => hart.regs .t4
  | .t5 => hart.regs .t5
  | .t6 => hart.regs .t6
  | .mcause => hart.csrs .mcause

theorem setReg_frame {rd : Reg} (hrd : rd ≠ .sp) (hart : Hart) (value : Word) :
    (hart.setReg rd value).frame = hart.frame := by
  unfold Hart.setReg
  split
  · rfl
  · simp [Hart.frame, Function.update_of_ne hrd.symm]

theorem setReg_regs {rd : Reg} (hrd : rd ≠ .zero) (hart : Hart) (value : Word) :
    (hart.setReg rd value).regs = Function.update hart.regs rd value := by
  rw [Hart.setReg, if_neg hrd]

@[simp]
theorem setReg_csrs (rd : Reg) (hart : Hart) (value : Word) :
    (hart.setReg rd value).csrs = hart.csrs := by
  unfold Hart.setReg
  split <;> rfl

@[simp]
theorem setReg_kernel (rd : Reg) (hart : Hart) (value : Word) :
    (hart.setReg rd value).kernel = hart.kernel := by
  unfold Hart.setReg
  split <;> rfl

@[simp]
theorem exec_csrr (rd : Reg) (csr : Csr) (hart : Hart) :
    Instr.exec (.csrr rd csr) hart = hart.setReg rd (hart.csrs csr) := rfl

@[simp]
theorem exec_mv (rd rs : Reg) (hart : Hart) :
    Instr.exec (.mv rd rs) hart = hart.setReg rd (hart.regs rs) := rfl

@[simp]
theorem exec_addi (rd rs : Reg) (imm : Word) (hart : Hart) :
    Instr.exec (.addi rd rs imm) hart = hart.setReg rd (hart.regs rs + imm) := rfl

@[simp]
theorem exec_sw_regs (src base : Reg) (offset : Word) (hart : Hart) :
    (Instr.exec (.sw src offset base) hart).regs = hart.regs := rfl

@[simp]
theorem exec_sw_csrs (src base : Reg) (offset : Word) (hart : Hart) :
    (Instr.exec (.sw src offset base) hart).csrs = hart.csrs := rfl

@[simp]
theorem exec_sw_frame (src : Reg) (field : Field) (hart : Hart) :
    (Instr.exec (.sw src field.offset .sp) hart).frame =
      Function.update hart.frame field (hart.regs src) :=
  frameAt_storeWord _ _ _ _

/-- The literal offsets of the prologue are those of the members. -/
theorem prologue_offsets : prologue ++ vectorArgs =
    [ .addi .sp .sp (-96),
      .sw .t6 Field.t6.offset .sp,
      .sw .t5 Field.t5.offset .sp,
      .sw .t4 Field.t4.offset .sp,
      .sw .t3 Field.t3.offset .sp,
      .sw .a7 Field.a7.offset .sp,
      .sw .a6 Field.a6.offset .sp,
      .sw .a5 Field.a5.offset .sp,
      .sw .a4 Field.a4.offset .sp,
      .sw .a3 Field.a3.offset .sp,
      .sw .a2 Field.a2.offset .sp,
      .sw .a1 Field.a1.offset .sp,
      .sw .a0 Field.a0.offset .sp,
      .sw .t2 Field.t2.offset .sp,
      .sw .t1 Field.t1.offset .sp,
      .sw .t0 Field.t0.offset .sp,
      .sw .ra Field.ra.offset .sp,
      .csrr .t0 .mstatus,
      .sw .t0 Field.mstatus.offset .sp,
      .csrr .t0 .mepc,
      .sw .t0 Field.mepc.offset .sp,
      .csrr .a0 .mcause,
      .sw .a0 Field.mcause.offset .sp,
      .mv .a1 .sp ] := rfl

/-- On entry the frame holds what is to be saved. -/
theorem enter_frame (hart : Hart) : hart.enter.frame = hart.toSave := by
  rw [Hart.enter, prologue_offsets]
  simp only [execAll, arrive, List.foldl_cons, List.foldl_nil, exec_addi, exec_csrr, exec_mv,
    exec_sw_regs, exec_sw_csrs, exec_sw_frame, setReg_csrs, setReg_regs, setReg_frame, ne_eq,
    reduceCtorEq, not_false_eq_true, Function.update_self, Function.update_of_ne,
    Function.update_idem]
  ext1 field
  cases field <;> rfl

/-- On entry the arguments of `exception_handler` are in place. -/
theorem enter_regs (hart : Hart) :
    hart.enter.regs .a0 = hart.csrs .mcause ∧ hart.enter.regs .a1 = hart.regs .sp - 96 ∧
      hart.enter.regs .sp = hart.regs .sp - 96 := by
  rw [Hart.enter, prologue_offsets, BitVec.sub_eq_add_neg]
  simp [execAll, arrive, setReg_regs, Function.update_of_ne]

/-- The vector moves the stack pointer, and leaves the other callee-saved registers alone. -/
theorem enter_regs_of_calleeSaved (hart : Hart) {reg : Reg} (hsaved : reg.calleeSaved = true)
    (hsp : reg ≠ .sp) : hart.enter.regs reg = hart.regs reg := by
  rw [Hart.enter, prologue_offsets]
  simp only [execAll, arrive, List.foldl_cons, List.foldl_nil, exec_addi, exec_csrr, exec_mv,
    exec_sw_regs, setReg_regs, ne_eq, reduceCtorEq, not_false_eq_true, Function.update_self,
    Function.update_of_ne, Function.update_idem]
  cases reg <;> first
    | exact absurd rfl hsp
    | exact absurd hsaved (by decide)
    | rfl

/-- No instruction reaches the table of handlers. -/
theorem execAll_exhandler (code : List Instr) (hart : Hart) :
    (execAll code hart).kernel.exhandler = hart.kernel.exhandler := by
  induction code generalizing hart with
  | nil => rfl
  | cons instr code ih =>
      have hinstr : (instr.exec hart).kernel.exhandler = hart.kernel.exhandler := by
        cases instr <;> simp [Instr.exec, Hart.setMem]
      exact (ih _).trans hinstr

/-- The literal offsets of the epilogue are those of the members. -/
theorem epilogue_offsets : epilogue =
    [ .lw .t0 Field.mepc.offset .sp,
      .csrw .mepc .t0,
      .lw .t0 Field.mstatus.offset .sp,
      .csrw .mstatus .t0,
      .lw .ra Field.ra.offset .sp,
      .lw .t0 Field.t0.offset .sp,
      .lw .t1 Field.t1.offset .sp,
      .lw .t2 Field.t2.offset .sp,
      .lw .a0 Field.a0.offset .sp,
      .lw .a1 Field.a1.offset .sp,
      .lw .a2 Field.a2.offset .sp,
      .lw .a3 Field.a3.offset .sp,
      .lw .a4 Field.a4.offset .sp,
      .lw .a5 Field.a5.offset .sp,
      .lw .a6 Field.a6.offset .sp,
      .lw .a7 Field.a7.offset .sp,
      .lw .t3 Field.t3.offset .sp,
      .lw .t4 Field.t4.offset .sp,
      .lw .t5 Field.t5.offset .sp,
      .lw .t6 Field.t6.offset .sp,
      .addi .sp .sp 96 ] := rfl

@[simp]
theorem exec_lw (dst : Reg) (field : Field) (hart : Hart) :
    Instr.exec (.lw dst field.offset .sp) hart = hart.setReg dst (hart.frame field) := rfl

@[simp]
theorem exec_csrw_regs (csr : Csr) (rs : Reg) (hart : Hart) :
    (Instr.exec (.csrw csr rs) hart).regs = hart.regs := rfl

@[simp]
theorem exec_csrw_frame (csr : Csr) (rs : Reg) (hart : Hart) :
    (Instr.exec (.csrw csr rs) hart).frame = hart.frame := rfl

@[simp]
theorem exec_csrw_csrs (csr : Csr) (rs : Reg) (hart : Hart) :
    (Instr.exec (.csrw csr rs) hart).csrs = Function.update hart.csrs csr (hart.regs rs) := rfl

/-- What the vector restores. -/
def Hart.restored (hart : Hart) : Reg → Word
  | .ra => hart.frame .ra
  | .t0 => hart.frame .t0
  | .t1 => hart.frame .t1
  | .t2 => hart.frame .t2
  | .a0 => hart.frame .a0
  | .a1 => hart.frame .a1
  | .a2 => hart.frame .a2
  | .a3 => hart.frame .a3
  | .a4 => hart.frame .a4
  | .a5 => hart.frame .a5
  | .a6 => hart.frame .a6
  | .a7 => hart.frame .a7
  | .t3 => hart.frame .t3
  | .t4 => hart.frame .t4
  | .t5 => hart.frame .t5
  | .t6 => hart.frame .t6
  | .sp => hart.regs .sp + 96
  | reg => hart.regs reg

theorem leave_regs (hart : Hart) : hart.leave.regs = hart.restored := by
  change (execAll epilogue hart).regs = hart.restored
  rw [epilogue_offsets]
  simp only [execAll, arrive, List.foldl_cons, List.foldl_nil, exec_addi, exec_lw, exec_csrw_regs,
    exec_csrw_frame, setReg_regs, setReg_frame, ne_eq, reduceCtorEq, not_false_eq_true,
    Function.update_of_ne, Function.update_idem]
  ext1 reg
  cases reg <;> rfl

theorem leave_pc (hart : Hart) : hart.leave.pc = hart.frame .mepc := by
  change (execAll epilogue hart).csrs .mepc = hart.frame .mepc
  rw [epilogue_offsets]
  simp [execAll, arrive, setReg_regs, Function.update_of_ne]

/-- The global enable on leaving is the previous one of the status in the frame. -/
theorem leave_mie (hart : Hart) : (hart.leave.csrs .mstatus).getLsbD mieBit =
    (hart.frame .mstatus).getLsbD mpieBit := by
  have hstatus : (execAll epilogue hart).csrs .mstatus = hart.frame .mstatus := by
    rw [epilogue_offsets]
    simp [execAll, arrive, setReg_frame, setReg_regs, Function.update_of_ne]
  simp only [Hart.leave, Hart.mret, Function.update_self, hstatus, copyBit]
  cases (hart.frame .mstatus).getLsbD mpieBit <;> simp [mieBit, mpieBit]

/-! ## The handler -/

/-- `arch_vcall_handler` is linked to the cause of an `ecall` on this core. -/
structure Platform.Linked (platform : Platform) (kernel : Kernel) : Prop where
  core : platform.cpuid < platform.config.nCores
  cause : 11 < platform.config.nExcep
  entry : kernel.exhandler platform.cpuid 11 = some .archVcallHandler

/-- The callback of the first entry with the given id. -/
def firstCallback (table : List Vcall) (id : Word) : Option Callback :=
  (table.find? fun entry => entry.id = id).bind Vcall.callback

theorem getCallbackFromTable_eq (table : List Vcall) (id : Word) :
    getCallbackFromTable table id = firstCallback table id := by
  induction table with
  | nil => rfl
  | cons entry table ih =>
      unfold getCallbackFromTable
      by_cases hid : entry.id = id
      · simp [firstCallback, hid]
      · simpa [firstCallback, hid] using ih

/-- What a call answers: what its callback makes of the default, or the default. -/
def answer (table : List Vcall) (id a0 a1 a2 : Word) (kernel : Kernel) : VRet × Kernel :=
  match firstCallback table id with
  | none => (⟨0, 0, errorVcallCodeInval⟩, kernel)
  | some callback => callback a0 a1 a2 ⟨0, 0, errorVcallCodeInval⟩ kernel

theorem vcallHandler_eq (table : List Vcall) (id a0 a1 a2 : Word) (kernel : Kernel) :
    vcallHandler table id a0 a1 a2 kernel = answer table id a0 a1 a2 kernel := by
  rw [vcallHandler, getCallbackFromTable_eq]
  rfl

/-- A frame with the results of a call, resumed behind it. -/
def answered (fields : Field → Word) (vres : VRet) : Field → Word
  | .a0 => vres.p
  | .a1 => vres.size
  | .a2 => vres.status
  | .mepc => fields .mepc + 4
  | field => fields field

/-- The linked handler writes what the call answers into the frame that is set. -/
theorem archVcallHandler_of_frame {table : List Vcall} {cpuid : ℕ} {kernel : Kernel} {frame : Word}
    (hset : kernel.getContextFrame cpuid = some frame) :
    ∃ kernel', archVcallHandler table cpuid kernel = .done kernel' ∧
      frameAt kernel'.mem frame =
        Function.update (Function.update (Function.update
          (frameAt (vcallFrame table frame kernel).2.mem frame)
            .a0 (vcallFrame table frame kernel).1.p)
            .a1 (vcallFrame table frame kernel).1.size)
            .a2 (vcallFrame table frame kernel).1.status := by
  unfold archVcallHandler
  rw [hset]
  refine ⟨_, rfl, ?_⟩
  simp only [frameAt_storeWord]
  rfl

/-- The cause of an `ecall` selects the linked handler. -/
theorem dispatch_ecallCause {platform : Platform} {kernel : Kernel}
    (hlinked : platform.Linked kernel) (frame : Word) :
    dispatch platform.config platform.cpuid ecallCause
      (kernel.setContextFrame platform.cpuid (some frame)) = .done .archVcallHandler := by
  have hcause : causeOf ecallCause = 11 := by decide
  have hinterrupt : isInterrupt ecallCause = false := by decide
  have hentry : (kernel.setContextFrame platform.cpuid (some frame)).exhandler
      platform.cpuid 11 = some .archVcallHandler := hlinked.entry
  simp only [dispatch, hinterrupt, hcause, entryAt, hlinked.core, hlinked.cause, and_self,
    Bool.false_eq_true, if_true, if_false, hentry]

/-- On an `ecall` the handler puts the answer into the frame and steps over the instruction. -/
theorem exceptionHandler_ecall {platform : Platform} {kernel : Kernel} {frame : Word}
    (hlinked : platform.Linked kernel)
    (hecall : platform.text.loadWord (frameAt kernel.mem frame .mepc) = ecall)
    (hframe : ∀ i < frameSize,
      (vcallFrame platform.table frame
        (kernel.setContextFrame platform.cpuid (some frame))).2.mem (frame + BitVec.ofNat 32 i) =
          kernel.mem (frame + BitVec.ofNat 32 i)) :
    ∃ kernel', platform.exceptionHandler ecallCause frame kernel = .done kernel' ∧
      frameAt kernel'.mem frame = answered (frameAt kernel.mem frame)
        (vcallFrame platform.table frame
          (kernel.setContextFrame platform.cpuid (some frame))).1 := by
  have hset : (kernel.setContextFrame platform.cpuid (some frame)).getContextFrame
      platform.cpuid = some frame := by
    simp [Kernel.setContextFrame, Kernel.getContextFrame]
  have hstep : (platform.text (frameAt kernel.mem frame .mepc)).getLsbD 1 = true := by
    rw [← ByteSpace.getLsbD_loadWord _ _ (by decide), hecall]
    decide
  have hinterrupt : isInterrupt ecallCause = false := by decide
  obtain ⟨kernel', hrun, hfields⟩ := @archVcallHandler_of_frame platform.table _ _ _ hset
  rw [frameAt_congr hframe] at hfields
  unfold Platform.exceptionHandler exceptionHandler
  simp only [dispatch_ecallCause hlinked, Outcome.done_bind, runIsr, hrun, hinterrupt,
    Bool.false_eq_true, if_false]
  refine ⟨_, rfl, ?_⟩
  simp only [Kernel.setContextFrame, advanceMepc, frameAt_storeWord, hfields]
  ext1 field
  cases field <;> simp [answered, hstep]

/-! ## The round trip -/

/-- The kernel when the handler of an `ecall` is called. -/
def Platform.onEntry (platform : Platform) (hart : Hart) : Kernel :=
  (hart.trap ecallCause).enter.kernel.setContextFrame platform.cpuid (some (hart.regs .sp - 96))

/-- What an `ecall` is answered. -/
def Platform.answer (platform : Platform) (hart : Hart) : VRet × Kernel :=
  Riscv.answer platform.table (hart.regs .a0) (hart.regs .a1) (hart.regs .a2) (hart.regs .a3)
    (platform.onEntry hart)

section RoundTrip

variable {platform : Platform} {hart : Hart}

/-- On entry the frame holds the state at the `ecall`. -/
theorem frameAt_onEntry (platform : Platform) (hart : Hart) :
    frameAt (platform.onEntry hart).mem (hart.regs .sp - 96) = (hart.trap ecallCause).toSave := by
  have hsaved := enter_frame (hart.trap ecallCause)
  rw [Hart.frame, (enter_regs (hart.trap ecallCause)).2.2] at hsaved
  exact hsaved

/-- The linked handler is called for the arguments in the registers. -/
theorem vcallFrame_onEntry (platform : Platform) (hart : Hart) :
    vcallFrame platform.table (hart.regs .sp - 96) (platform.onEntry hart) =
      platform.answer hart := by
  rw [vcallFrame, frameAt_onEntry, vcallHandler_eq]
  rfl

/-- After the call the frame holds the answer. -/
theorem frame_after_call (compiled : Compiled platform.exceptionHandler)
    (hlinked : platform.Linked hart.kernel) (hecall : platform.text.loadWord hart.pc = ecall)
    (hframe : ∀ i < frameSize,
      (platform.answer hart).2.mem (hart.regs .sp - 96 + BitVec.ofNat 32 i) =
        (platform.onEntry hart).mem (hart.regs .sp - 96 + BitVec.ofNat 32 i)) :
    (compiled.call (hart.trap ecallCause).enter).frame =
      answered (hart.trap ecallCause).toSave (platform.answer hart).1 := by
  obtain ⟨hcause, harg, hsp⟩ := enter_regs (hart.trap ecallCause)
  have hlinked' : platform.Linked (hart.trap ecallCause).enter.kernel := by
    constructor
    · exact hlinked.core
    · exact hlinked.cause
    · rw [Hart.enter, execAll_exhandler]
      exact hlinked.entry
  have hsaved : frameAt (hart.trap ecallCause).enter.kernel.mem (hart.regs .sp - 96) =
      (hart.trap ecallCause).toSave := frameAt_onEntry platform hart
  have hanswer := vcallFrame_onEntry platform hart
  have hframe' : ∀ i < frameSize,
      (vcallFrame platform.table (hart.regs .sp - 96) (platform.onEntry hart)).2.mem
        (hart.regs .sp - 96 + BitVec.ofNat 32 i) =
          (hart.trap ecallCause).enter.kernel.mem (hart.regs .sp - 96 + BitVec.ofNat 32 i) := by
    rw [hanswer]
    exact hframe
  have hecall' : platform.text.loadWord
      (frameAt (hart.trap ecallCause).enter.kernel.mem (hart.regs .sp - 96) .mepc) = ecall := by
    rw [hsaved]
    exact hecall
  obtain ⟨kernel, hdone, hfields⟩ := exceptionHandler_ecall hlinked' hecall' hframe'
  rw [hsaved] at hfields
  have hbytes := compiled.frame (hart.trap ecallCause).enter kernel
    (by rw [hcause, harg]; exact hdone)
  rw [harg] at hbytes
  have hkept := compiled.saved (hart.trap ecallCause).enter .sp rfl
  rw [Hart.frame, hkept, hsp]
  calc frameAt (compiled.call (hart.trap ecallCause).enter).kernel.mem (hart.regs .sp - 96)
      = frameAt kernel.mem (hart.regs .sp - 96) := frameAt_congr hbytes
    _ = answered (hart.trap ecallCause).toSave
          (vcallFrame platform.table (hart.regs .sp - 96) (platform.onEntry hart)).1 := hfields
    _ = answered (hart.trap ecallCause).toSave (platform.answer hart).1 := by rw [hanswer]

/-- A visor call resumes behind its `ecall` with the answer in `a0`, `a1` and `a2` and every
other register and the interrupt enable as they were.  The callback that is called, like
any compiled code, leaves the frame of its caller alone. -/
theorem visorCall_round_trip (compiled : Compiled platform.exceptionHandler)
    (hlinked : platform.Linked hart.kernel) (hecall : platform.text.loadWord hart.pc = ecall)
    (hframe : ∀ i < frameSize,
      (platform.answer hart).2.mem (hart.regs .sp - 96 + BitVec.ofNat 32 i) =
        (platform.onEntry hart).mem (hart.regs .sp - 96 + BitVec.ofNat 32 i)) :
    (platform.visorCall compiled hart).pc = hart.pc + 4 ∧
      (platform.visorCall compiled hart).regs .a0 = (platform.answer hart).1.p ∧
      (platform.visorCall compiled hart).regs .a1 = (platform.answer hart).1.size ∧
      (platform.visorCall compiled hart).regs .a2 = (platform.answer hart).1.status ∧
      (∀ reg, reg ≠ .a0 → reg ≠ .a1 → reg ≠ .a2 →
        (platform.visorCall compiled hart).regs reg = hart.regs reg) ∧
      ((platform.visorCall compiled hart).csrs .mstatus).getLsbD mieBit =
        (hart.csrs .mstatus).getLsbD mieBit := by
  have hcalled := frame_after_call compiled hlinked hecall hframe
  have hkept (reg : Reg) (hsaved : reg.calleeSaved = true) (hsp : reg ≠ .sp) :
      (compiled.call (hart.trap ecallCause).enter).regs reg = hart.regs reg :=
    (compiled.saved _ reg hsaved).trans (enter_regs_of_calleeSaved _ hsaved hsp)
  simp only [Platform.visorCall, leave_regs, leave_pc, leave_mie, Hart.restored, hcalled]
  refine ⟨rfl, rfl, rfl, rfl, ?_, ?_⟩
  · intro reg ha0 ha1 ha2
    cases reg with
    | a0 => exact absurd rfl ha0
    | a1 => exact absurd rfl ha1
    | a2 => exact absurd rfl ha2
    | sp =>
        have hsp := (enter_regs (hart.trap ecallCause)).2.2
        change (compiled.call (hart.trap ecallCause).enter).regs .sp + 96 = hart.regs .sp
        rw [compiled.saved _ .sp rfl, hsp]
        exact BitVec.sub_add_cancel _ _
    | zero | gp | tp => exact hkept _ rfl (by decide)
    | s0 | s1 | s2 | s3 | s4 | s5 | s6 | s7 | s8 | s9 | s10 | s11 => exact hkept _ rfl (by decide)
    | ra | t0 | t1 | t2 | t3 | t4 | t5 | t6 | a3 | a4 | a5 | a6 | a7 => rfl
  · change (clearBit (copyBit (hart.csrs .mstatus) mpieBit mieBit) mieBit).getLsbD mpieBit =
      (hart.csrs .mstatus).getLsbD mieBit
    simp only [copyBit]
    cases (hart.csrs .mstatus).getLsbD mieBit <;> simp [mieBit, mpieBit]

end RoundTrip

/-- Code that does what it means and overwrites every register that it may. -/
def Compiled.overwriting (meaning : Word → Word → Kernel → Outcome TrapFault Kernel) :
    Compiled meaning where
  call hart :=
    { hart with
      regs := fun reg => if reg.calleeSaved then hart.regs reg else 0
      kernel := match meaning (hart.regs .a0) (hart.regs .a1) hart.kernel with
        | .done kernel => kernel
        | _ => hart.kernel }
  saved hart reg hsaved := by simp [hsaved]
  frame hart kernel hdone := by simp [hdone]

/-- One call, which adds its first two arguments. -/
def addingPlatform : Platform where
  config := ⟨1, 12, 12⟩
  text addr := if addr = 0x20400000 then 0x73 else 0
  cpuid := 0
  table := [⟨1, some fun a0 a1 _ _ kernel => (⟨a0 + a1, 4, 0⟩, kernel)⟩]
  client _ kernel := .done kernel

/-- A hart about to make that call. -/
def addingHart : Hart where
  regs
    | .a0 => 1
    | .a1 => 5
    | .a2 => 7
    | .sp => 0x80004000
    | .t0 => 0x1234
    | _ => 0
  csrs
    | .mstatus => 0x1808
    | _ => 0
  pc := 0x20400000
  kernel := ⟨fun _ => 0, fun _ _ => some .archVcallHandler, fun _ _ => none, fun _ => none⟩

theorem visorCall_addingHart :
    (addingPlatform.visorCall (.overwriting _) addingHart).pc = 0x20400004 ∧
      (addingPlatform.visorCall (.overwriting _) addingHart).regs .a0 = 12 ∧
      (addingPlatform.visorCall (.overwriting _) addingHart).regs .t0 = 0x1234 := by
  obtain ⟨hpc, hp, _, _, hregs, _⟩ := @visorCall_round_trip addingPlatform addingHart
    (.overwriting _) ⟨by decide, by decide, rfl⟩ (by decide) (fun _ _ => rfl)
  exact ⟨hpc, hp, hregs .t0 (by decide) (by decide) (by decide)⟩

end Cyancore.Riscv
