/-
# Where a trap resumes

RV32IMC code is a stream of instructions of two and of four bytes; the two low bits of an
instruction tell which.  After a synchronous exception the handler has to step over the
instruction that raised it, and it takes the length from one of these bits alone.
-/

import Cyancore.Arch.VisorCall

namespace Cyancore.Riscv

open Cyancore.Math

/-! ## Streams of instructions -/

/-- An encoding, which is long exactly when its two low bits are set. -/
inductive Encoding
  | compressed (word : BitVec 16) (hword : word.extractLsb' 0 2 ≠ 3#2)
  | standard (word : BitVec 32) (hword : word.extractLsb' 0 2 = 3#2)
  deriving DecidableEq, Repr

namespace Encoding

/-- The two low bits. -/
def quadrant : Encoding → BitVec 2
  | .compressed word _ => word.extractLsb' 0 2
  | .standard word _ => word.extractLsb' 0 2

/-- The length in bytes. -/
def size : Encoding → ℕ
  | .compressed _ _ => 2
  | .standard _ _ => 4

/-- The bytes in memory, the lowest first. -/
def byte : Encoding → ℕ → BitVec 8
  | .compressed word _, i => word.extractLsb' (8 * i) 8
  | .standard word _, i => word.extractLsb' (8 * i) 8

end Encoding

/-- Where a stream that starts at an address ends. -/
def endOf (base : Word) : List Encoding → Word
  | [] => base
  | instr :: stream => endOf (base + BitVec.ofNat 32 instr.size) stream

/-- The stream is in the program memory. -/
def LaidAt (text : ByteSpace) (base : Word) : List Encoding → Prop
  | [] => True
  | instr :: stream =>
      (∀ i < instr.size, text (base + BitVec.ofNat 32 i) = instr.byte i) ∧
        LaidAt text (base + BitVec.ofNat 32 instr.size) stream

theorem Encoding.size_pos (instr : Encoding) : 0 < instr.size := by
  cases instr with
  | compressed word hword => exact Nat.succ_pos 1
  | standard word hword => exact Nat.succ_pos 3

theorem endOf_append (base : Word) (before after : List Encoding) :
    endOf base (before ++ after) = endOf (endOf base before) after := by
  induction before generalizing base with
  | nil => rfl
  | cons instr before ih => exact ih _

theorem LaidAt.suffix {text : ByteSpace} {base : Word} {before after : List Encoding}
    (hlaid : LaidAt text base (before ++ after)) : LaidAt text (endOf base before) after := by
  induction before generalizing base with
  | nil => exact hlaid
  | cons instr before ih => exact ih hlaid.2

/-- The bit that the handler looks at is the upper one of the two. -/
theorem getLsbD_byte_zero (instr : Encoding) :
    (instr.byte 0).getLsbD 1 = instr.quadrant.getLsbD 1 := by
  cases instr with
  | compressed word hword => simp [Encoding.byte, Encoding.quadrant]
  | standard word hword => simp [Encoding.byte, Encoding.quadrant]

/-- It gives the length in every quadrant but the third. -/
theorem step_eq_size_iff (instr : Encoding) :
    (if instr.quadrant.getLsbD 1 then 4 else 2 : Word) = BitVec.ofNat 32 instr.size ↔
      instr.quadrant ≠ 2#2 := by
  cases instr with
  | compressed word hword =>
      have hshort : ∀ quadrant : BitVec 2, quadrant ≠ 3#2 →
          ((if quadrant.getLsbD 1 then 4 else 2 : Word) = 2#32 ↔ quadrant ≠ 2#2) := by
        decide
      exact hshort _ hword
  | standard word hword =>
      simp only [Encoding.quadrant, Encoding.size, hword]
      decide

/-! ## Handlers that leave `mepc` alone -/

/-- Neither the handlers of clients nor the callbacks of visor calls write `mepc` in the frame. -/
structure Platform.LeavesMepc (platform : Platform) (frame : Word) : Prop where
  client : ∀ handler kernel kernel', platform.client handler kernel = .done kernel' →
    frameAt kernel'.mem frame .mepc = frameAt kernel.mem frame .mepc
  callback : ∀ entry ∈ platform.table, ∀ callback, entry.callback = some callback →
    ∀ a0 a1 a2 ret kernel, frameAt (callback a0 a1 a2 ret kernel).2.mem frame .mepc =
      frameAt kernel.mem frame .mepc

/-- A callback that is found is that of an entry. -/
theorem mem_of_getCallbackFromTable {table : List Vcall} {id : Word} {callback : Callback}
    (hfound : getCallbackFromTable table id = some callback) :
    ∃ entry ∈ table, entry.callback = some callback := by
  rw [getCallbackFromTable_eq, firstCallback, Option.bind_eq_some_iff] at hfound
  obtain ⟨entry, hentry, hcallback⟩ := hfound
  exact ⟨entry, List.mem_of_find?_eq_some hentry, hcallback⟩

section Handlers

variable {platform : Platform} {frame : Word} {kernel kernel' : Kernel}
  (hleaves : platform.LeavesMepc frame)

include hleaves

theorem mepc_vcallFrame : frameAt (vcallFrame platform.table frame kernel).2.mem frame .mepc =
    frameAt kernel.mem frame .mepc := by
  rw [vcallFrame, vcallHandler]
  split
  case h_1 => rfl
  case h_2 callback hfound =>
      obtain ⟨entry, hmem, hcallback⟩ := mem_of_getCallbackFromTable hfound
      exact hleaves.callback entry hmem callback hcallback _ _ _ _ kernel

/-- The handler of visor calls writes its results only. -/
theorem mepc_runIsr {handler : Isr} (hset : kernel.getContextFrame platform.cpuid = some frame)
    (hrun : runIsr platform.table platform.cpuid platform.client handler kernel = .done kernel') :
    frameAt kernel'.mem frame .mepc = frameAt kernel.mem frame .mepc := by
  cases handler with
  | archVcallHandler =>
      obtain ⟨kernel'', hvcall, hfields⟩ := @archVcallHandler_of_frame platform.table _ _ _ hset
      rw [runIsr, hvcall] at hrun
      cases hrun
      rw [hfields, Function.update_of_ne (by decide), Function.update_of_ne (by decide),
        Function.update_of_ne (by decide), mepc_vcallFrame hleaves]
  | archPanicHandler => exact hleaves.client _ _ _ hrun
  | archUnhandledIrq => exact hleaves.client _ _ _ hrun
  | client id => exact hleaves.client _ _ _ hrun

/-- An exception that returns has advanced `mepc`. -/
theorem mepc_exceptionHandler {mcause : Word} (hexception : isInterrupt mcause = false)
    (hreturn : platform.exceptionHandler mcause frame kernel = .done kernel') :
    frameAt kernel'.mem frame .mepc = frameAt kernel.mem frame .mepc +
      if (platform.text (frameAt kernel.mem frame .mepc)).getLsbD 1 then 4 else 2 := by
  obtain ⟨handler, _, hrest⟩ := Outcome.bind_eq_done_iff.mp hreturn
  obtain ⟨body, hbody, hend⟩ := Outcome.bind_eq_done_iff.mp hrest
  have hset : (kernel.setContextFrame platform.cpuid (some frame)).getContextFrame
      platform.cpuid = some frame := by
    simp [Kernel.setContextFrame, Kernel.getContextFrame]
  have hkept := mepc_runIsr hleaves hset hbody
  change frameAt body.mem frame .mepc = frameAt kernel.mem frame .mepc at hkept
  simp only [hexception, Bool.false_eq_true, if_false] at hend
  cases hend
  simp only [Kernel.setContextFrame, advanceMepc, frameAt_storeWord, Function.update_self, hkept]

end Handlers

/-! ## The next instruction -/

/-- An instruction of a program raises an exception, and its handler returns. -/
structure Served (platform : Platform) (base : Word) (before : List Encoding) (instr : Encoding)
    (after : List Encoding) (mcause frame : Word) (kernel kernel' : Kernel) : Prop where
  laid : LaidAt platform.text base (before ++ instr :: after)
  leaves : platform.LeavesMepc frame
  exception : isInterrupt mcause = false
  mepc : frameAt kernel.mem frame .mepc = endOf base before
  returns : platform.exceptionHandler mcause frame kernel = .done kernel'

/-- What the handler adds depends on the instruction alone. -/
theorem Served.mepc_eq {platform : Platform} {base : Word} {before : List Encoding}
    {instr : Encoding} {after : List Encoding} {mcause frame : Word} {kernel kernel' : Kernel}
    (hserved : Served platform base before instr after mcause frame kernel kernel') :
    frameAt kernel'.mem frame .mepc =
      endOf base before + if instr.quadrant.getLsbD 1 then 4 else 2 := by
  have hbyte : platform.text (endOf base before) = instr.byte 0 := by
    have hfirst := hserved.laid.suffix.1 0 instr.size_pos
    simpa using hfirst
  rw [mepc_exceptionHandler hserved.leaves hserved.exception hserved.returns, hserved.mepc,
    hbyte, getLsbD_byte_zero]

/-- In every program, an exception resumes at the instruction that follows exactly when the one
that raised it is not a compressed one of the third quadrant. -/
theorem mepc_eq_next_iff {platform : Platform} {base : Word} {before : List Encoding}
    {instr : Encoding} {after : List Encoding} {mcause frame : Word} {kernel kernel' : Kernel}
    (hserved : Served platform base before instr after mcause frame kernel kernel') :
    frameAt kernel'.mem frame .mepc = endOf base (before ++ [instr]) ↔
      instr.quadrant ≠ 2#2 := by
  rw [hserved.mepc_eq, endOf_append, ← step_eq_size_iff]
  exact BitVec.add_right_inj (endOf base before)

/-! ## Breakpoints -/

/-- `ebreak`. -/
def ebreak : Encoding := .standard 0x00100073 (by decide)

/-- `c.ebreak`. -/
def cEbreak : Encoding := .compressed 0x9002 (by decide)

/-- The cause of a breakpoint. -/
def breakpointCause : Word := 3

/-- A platform whose program is one word, with a handler that only returns. -/
def breakpointPlatform (word : Word) : Platform where
  config := ⟨1, 12, 12⟩
  text := ByteSpace.storeWord (fun _ => 0) 0x20400000 word
  cpuid := 0
  table := []
  client _ kernel := .done kernel

/-- A handler was registered for breakpoints, and the frame is on the stack. -/
def breakpointKernel : Kernel where
  mem := ByteSpace.storeWord (fun _ => 0) 0x80003fa0 0x20400000
  exhandler := setEntry (fun _ _ => none) 0 3 (some (.client 0))
  irqhandler _ _ := none
  localFrame _ := none

/-- The breakpoint as it is served. -/
theorem served_breakpoint {word : Word} {instr : Encoding}
    (hlaid : LaidAt (breakpointPlatform word).text 0x20400000 [instr]) :
    ∃ kernel', Served (breakpointPlatform word) 0x20400000 [] instr [] breakpointCause 0x80003fa0
      breakpointKernel kernel' :=
  ⟨_, {
    laid := hlaid
    leaves := ⟨fun _ _ _ hdone => by cases hdone; rfl, fun _ hmem => by cases hmem⟩
    exception := by decide
    mepc := by decide
    returns := rfl }⟩

/-- An `ebreak` is stepped over. -/
theorem mepc_eq_next_ebreak :
    ∃ kernel', (breakpointPlatform 0x00100073).exceptionHandler breakpointCause 0x80003fa0
        breakpointKernel = .done kernel' ∧
      frameAt kernel'.mem 0x80003fa0 .mepc = 0x20400004 := by
  obtain ⟨kernel', hserved⟩ := @served_breakpoint 0x00100073 ebreak ⟨by decide, trivial⟩
  exact ⟨kernel', hserved.returns, (mepc_eq_next_iff hserved).mpr (by decide)⟩

/-- Behind a `c.ebreak` two bytes are left out. -/
theorem not_mepc_eq_next :
    ¬ ∀ platform base before instr after mcause frame kernel kernel',
      Served platform base before instr after mcause frame kernel kernel' →
        frameAt kernel'.mem frame .mepc = endOf base (before ++ [instr]) := by
  intro hclaim
  obtain ⟨kernel', hserved⟩ := @served_breakpoint 0x9002 cEbreak ⟨by decide, trivial⟩
  have hnext := hclaim _ _ _ _ _ _ _ _ _ hserved
  rw [hserved.mepc_eq] at hnext
  revert hnext
  decide

end Cyancore.Riscv
