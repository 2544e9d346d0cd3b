/-
# A fragment of the AVR instruction set

The instructions of hand-written locks: stack, moves, the global interrupt flag, loads
and stores through the pointer `Z` with and without post-increment, compares and
branches.  Addresses are 16 bits and wrap; the data space is one array of bytes.  The
accesses of a piece of code to the data space and to the status register are recorded,
newest first.
-/

import Mathlib.Data.Nat.Notation
import Mathlib.Logic.Function.Basic

namespace Cyancore.Avr

/-- The registers in use. -/
inductive Reg
  | r0 | r1 | r18 | r19 | r24 | r25 | r30 | r31
  deriving DecidableEq, Repr

/-- Registers, status register and stack.  The bits of `sreg` are, from 7 down,
I T H S V N Z C. -/
structure Cpu where
  regs : Reg → BitVec 8
  sreg : BitVec 8
  stack : List (BitVec 8)

/-- The data space. -/
abbrev DataMemory := BitVec 16 → BitVec 8

/-- What a piece of code has done to the data space and to the interrupt flag. -/
inductive Access
  | cli
  | load (addr : BitVec 16) (value : BitVec 8)
  | store (addr : BitVec 16) (value : BitVec 8)
  | outSreg
  deriving DecidableEq, Repr

/-- Instructions; branch targets are positions in the code. -/
inductive Instr
  | push (r : Reg)
  | pop (r : Reg)
  | /-- Copy the pair `shi:slo` to `dhi:dlo`. -/
    movw (dhi dlo shi slo : Reg)
  | mov (d s : Reg)
  | ldi (d : Reg) (value : BitVec 8)
  | /-- Read the status register. -/
    inSreg (d : Reg)
  | /-- Write the status register. -/
    outSreg (s : Reg)
  | cli
  | /-- `ld d, Z+`. -/
    ldInc (d : Reg)
  | /-- `ld d, Z`. -/
    ld (d : Reg)
  | /-- `st Z+, s`. -/
    stInc (s : Reg)
  | /-- `st Z, s`. -/
    st (s : Reg)
  | cpi (d : Reg) (value : BitVec 8)
  | cpc (d s : Reg)
  | eor (d s : Reg)
  | brne (target : ℕ)
  | rjmp (target : ℕ)
  | ret
  deriving DecidableEq, Repr

namespace Cpu

variable (cpu : Cpu)

/-- The global interrupt flag. -/
def flagI : Bool := cpu.sreg.getLsbD 7

def flagZ : Bool := cpu.sreg.getLsbD 1

def flagC : Bool := cpu.sreg.getLsbD 0

/-- A pair of registers as an address. -/
def pair (hi lo : Reg) : BitVec 16 := cpu.regs hi ++ cpu.regs lo

/-- The pointer `Z`. -/
def z : BitVec 16 := cpu.pair .r31 .r30

def set (r : Reg) (value : BitVec 8) : Cpu := { cpu with regs := Function.update cpu.regs r value }

def setZ (addr : BitVec 16) : Cpu :=
  (cpu.set .r31 (addr.extractLsb' 8 8)).set .r30 (addr.extractLsb' 0 8)

/-- Replace the bits of the status register that are set in `mask`. -/
def setFlags (mask flags : BitVec 8) : Cpu :=
  { cpu with sreg := (cpu.sreg &&& ~~~ mask) ||| (flags &&& mask) }

end Cpu

/-- The flags H S V N Z C of the subtraction `d - s - carry`; `zero` is what Z starts from. -/
def subtractFlags (d s : BitVec 8) (carry zero : Bool) : BitVec 8 :=
  let res := d - s - BitVec.zeroExtend 8 (BitVec.ofBool carry)
  let borrow := (~~~ d &&& s) ||| (s &&& res) ||| (res &&& ~~~ d)
  let overflow := (d &&& ~~~ s &&& ~~~ res) ||| (~~~ d &&& s &&& res)
  let v := overflow.getLsbD 7
  let n := res.getLsbD 7
  BitVec.ofBoolListLE
    [borrow.getLsbD 7, zero && res == 0, n, v, n ^^ v, borrow.getLsbD 3, false, false]

/-- The flags S V N Z of a logical result. -/
def logicFlags (res : BitVec 8) : BitVec 8 :=
  let n := res.getLsbD 7
  BitVec.ofBoolListLE [false, res == 0, n, false, n, false, false, false]

/-- A piece of code between two instructions. -/
structure Config where
  cpu : Cpu
  memory : DataMemory
  pc : ℕ
  trace : List Access

namespace Config

variable (config : Config)

/-- Go on behind the current instruction with this processor state. -/
def advance (cpu : Cpu) : Config := { config with cpu := cpu, pc := config.pc + 1 }

/-- Record an access. -/
def log (access : Access) : Config := { config with trace := access :: config.trace }

/-- Load the byte at `Z`. -/
def load (d : Reg) (cpu : Cpu) : Config :=
  let value := config.memory config.cpu.z
  (config.advance (cpu.set d value)).log (.load config.cpu.z value)

/-- Store a byte at `Z`. -/
def store (s : Reg) (cpu : Cpu) : Config :=
  let value := config.cpu.regs s
  { (config.advance cpu).log (.store config.cpu.z value) with
    memory := Function.update config.memory config.cpu.z value }

/-- One instruction; `ret` leaves the code and is up to the caller. -/
def exec : Instr → Config
  | .push r =>
      config.advance { config.cpu with stack := config.cpu.regs r :: config.cpu.stack }
  | .pop r =>
      config.advance
        { config.cpu.set r (config.cpu.stack.headD 0) with stack := config.cpu.stack.tail }
  | .movw dhi dlo shi slo =>
      config.advance ((config.cpu.set dhi (config.cpu.regs shi)).set dlo (config.cpu.regs slo))
  | .mov d s => config.advance (config.cpu.set d (config.cpu.regs s))
  | .ldi d value => config.advance (config.cpu.set d value)
  | .inSreg d => config.advance (config.cpu.set d config.cpu.sreg)
  | .outSreg s => (config.advance { config.cpu with sreg := config.cpu.regs s }).log .outSreg
  | .cli => (config.advance (config.cpu.setFlags 0x80 0)).log .cli
  | .ldInc d => config.load d (config.cpu.setZ (config.cpu.z + 1))
  | .ld d => config.load d config.cpu
  | .stInc s => config.store s (config.cpu.setZ (config.cpu.z + 1))
  | .st s => config.store s config.cpu
  | .cpi d value =>
      config.advance
        (config.cpu.setFlags 0x3f (subtractFlags (config.cpu.regs d) value false true))
  | .cpc d s =>
      config.advance (config.cpu.setFlags 0x3f
        (subtractFlags (config.cpu.regs d) (config.cpu.regs s) config.cpu.flagC config.cpu.flagZ))
  | .eor d s =>
      let value := config.cpu.regs d ^^^ config.cpu.regs s
      config.advance ((config.cpu.set d value).setFlags 0x1e (logicFlags value))
  | .brne target =>
      if config.cpu.flagZ then config.advance config.cpu else { config with pc := target }
  | .rjmp target => { config with pc := target }
  | .ret => config

end Config

/-! ## What an instruction leaves alone -/

/-- The registers an instruction may write. -/
def Instr.writes : Instr → List Reg
  | .pop d | .mov d _ | .ldi d _ | .inSreg d | .ld d | .eor d _ => [d]
  | .movw dhi dlo _ _ => [dhi, dlo]
  | .ldInc d => [d, .r31, .r30]
  | .stInc _ => [.r31, .r30]
  | _ => []

/-- The instruction leaves the interrupt flag alone. -/
def Instr.keepsI : Instr → Bool
  | .cli | .outSreg _ => false
  | _ => true

/-- The instruction leaves the data space alone. -/
def Instr.keepsMemory : Instr → Bool
  | .stInc _ | .st _ => false
  | _ => true

/-- Where control can go from an instruction at `pc`. -/
def Instr.next (pc : ℕ) : Instr → List ℕ
  | .brne target => [pc + 1, target]
  | .rjmp target => [target]
  | .ret => [pc]
  | _ => [pc + 1]

section Lemmas

variable (config : Config) (cpu : Cpu)

@[simp]
theorem Cpu.z_setZ (addr : BitVec 16) : (cpu.setZ addr).z = addr :=
  @BitVec.extractLsb'_append_extractLsb' 8 8 addr

/-- Flags under the mask are replaced, the others stay. -/
theorem Cpu.setFlags_bit (mask flags : BitVec 8) (i : ℕ) :
    (cpu.setFlags mask flags).sreg.getLsbD i =
      if mask.getLsbD i then flags.getLsbD i else cpu.sreg.getLsbD i := by
  simp only [Cpu.setFlags, BitVec.getLsbD_or, BitVec.getLsbD_and, BitVec.getLsbD_not]
  cases hmask : mask.getLsbD i with
  | true => simp
  | false =>
      by_cases hi : i < 8
      · simp [hi]
      · simp [BitVec.getLsbD_of_ge _ _ (Nat.not_lt.mp hi)]

/-- Only the listed registers change. -/
theorem Config.exec_regs {instr : Instr} {r : Reg} (hkeep : r ∉ instr.writes) :
    (config.exec instr).cpu.regs r = config.cpu.regs r := by
  cases instr with
  | pop d | mov d s | ldi d value | inSreg d | ld d | eor d s =>
      exact Function.update_of_ne (by simpa [Instr.writes] using hkeep) _ _
  | movw dhi dlo shi slo =>
      obtain ⟨hhi, hlo⟩ : r ≠ dhi ∧ r ≠ dlo := by simpa [Instr.writes] using hkeep
      simp [Config.exec, Config.advance, Cpu.set, hhi, hlo]
  | ldInc d =>
      obtain ⟨hd, hhi, hlo⟩ : r ≠ d ∧ r ≠ .r31 ∧ r ≠ .r30 := by simpa [Instr.writes] using hkeep
      simp [Config.exec, Config.load, Config.advance, Config.log, Cpu.set, Cpu.setZ, hd, hhi, hlo]
  | stInc s =>
      obtain ⟨hhi, hlo⟩ : r ≠ .r31 ∧ r ≠ .r30 := by simpa [Instr.writes] using hkeep
      simp [Config.exec, Config.store, Config.advance, Config.log, Cpu.set, Cpu.setZ, hhi, hlo]
  | brne target =>
      rw [Config.exec]
      split
      · rfl
      · rfl
  | _ => rfl

theorem Config.exec_flagI {instr : Instr} (hkeep : instr.keepsI = true) :
    (config.exec instr).cpu.flagI = config.cpu.flagI := by
  cases instr with
  | cli | outSreg s => cases hkeep
  | cpi d value => exact Cpu.setFlags_bit _ 0x3f _ 7
  | cpc d s => exact Cpu.setFlags_bit _ 0x3f _ 7
  | eor d s => exact Cpu.setFlags_bit _ 0x1e _ 7
  | brne target =>
      rw [Config.exec]
      split
      · rfl
      · rfl
  | _ => rfl

theorem Config.exec_memory {instr : Instr} (hkeep : instr.keepsMemory = true) :
    (config.exec instr).memory = config.memory := by
  cases instr with
  | stInc s | st s => cases hkeep
  | brne target =>
      rw [Config.exec]
      split
      · rfl
      · rfl
  | _ => rfl

theorem Config.exec_pc (instr : Instr) : (config.exec instr).pc ∈ instr.next config.pc := by
  cases instr with
  | brne target =>
      rw [Config.exec]
      split
      · exact List.mem_cons_self
      · exact List.mem_cons_of_mem _ List.mem_cons_self
  | _ => exact List.mem_cons_self

theorem Config.exec_cli_flagI : (config.exec .cli).cpu.flagI = false :=
  Cpu.setFlags_bit _ 0x80 _ 7

theorem subtractFlags_zero (d s : BitVec 8) (carry zero : Bool) :
    (subtractFlags d s carry zero).getLsbD 1 =
      (zero && d - s - BitVec.zeroExtend 8 (BitVec.ofBool carry) == 0) := by
  rw [subtractFlags, BitVec.getLsbD_ofBoolListLE]
  rfl

/-- `cpi` with 1 sets Z when the register is 1, and then no carry. -/
theorem Config.flagZ_cpi_one {d : Reg} :
    (config.exec (.cpi d 1)).cpu.flagZ = (config.cpu.regs d == 1) := by
  have hbit : (config.exec (.cpi d 1)).cpu.flagZ =
      (subtractFlags (config.cpu.regs d) 1 false true).getLsbD 1 := Cpu.setFlags_bit _ 0x3f _ 1
  rw [hbit, subtractFlags_zero, Bool.true_and, beq_eq_beq]
  simp [BitVec.sub_eq_iff_eq_add]

theorem Config.flagC_cpi_one {d : Reg} (hone : config.cpu.regs d = 1) :
    (config.exec (.cpi d 1)).cpu.flagC = false := by
  have hbit : (config.exec (.cpi d 1)).cpu.flagC =
      (subtractFlags (config.cpu.regs d) 1 false true).getLsbD 0 := Cpu.setFlags_bit _ 0x3f _ 0
  rw [hbit, hone]
  decide

/-- `cpc` with 0 and no carry keeps Z when the register is 0. -/
theorem Config.flagZ_cpc_zero {d s : Reg} (hzero : config.cpu.regs s = 0)
    (hcarry : config.cpu.flagZ = true → config.cpu.flagC = false) :
    (config.exec (.cpc d s)).cpu.flagZ = (config.cpu.flagZ && config.cpu.regs d == 0) := by
  have hbit : (config.exec (.cpc d s)).cpu.flagZ =
      (subtractFlags (config.cpu.regs d) (config.cpu.regs s) config.cpu.flagC
        config.cpu.flagZ).getLsbD 1 := Cpu.setFlags_bit _ 0x3f _ 1
  rw [hbit, subtractFlags_zero, hzero]
  cases hflag : config.cpu.flagZ with
  | false => rfl
  | true => simp [hcarry hflag]

end Lemmas

end Cyancore.Avr
