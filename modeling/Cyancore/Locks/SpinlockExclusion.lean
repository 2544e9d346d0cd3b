/-
# The AVR spinlock excludes without retries

The test of `spinlock_acquire` loads the low byte of the key with post-increment, and a
retry does not go back to the start of the key: it tests the two bytes one further on.
A retry that leaves the loop there takes the lock without having looked at it.  The
annotation below follows both functions instruction by instruction; it holds in every
run in which no retry leaves the loop at a wrong address.
-/

import Cyancore.Locks.Spinlock
import Mathlib.Tactic.IntervalCases

namespace Cyancore.Locks

open Cyancore.Avr Cyancore.Math

variable {tid : Type} {key : BitVec 16} {memory : DataMemory} {cpu : Cpu} {trace : List Access}

/-! ## Where a context stands -/

/-- The context has interrupts off. -/
def Activity.InWindow : Activity → Prop
  | .acquiring pc => 8 ≤ pc ∧ pc ≤ 13 ∨ 18 ≤ pc ∧ pc ≤ 23
  | .releasing pc => 6 ≤ pc ∧ pc ≤ 8
  | _ => False

instance (activity : Activity) : Decidable activity.InWindow :=
  match activity with
  | .acquiring pc => inferInstanceAs (Decidable (8 ≤ pc ∧ pc ≤ 13 ∨ 18 ≤ pc ∧ pc ≤ 23))
  | .releasing pc => inferInstanceAs (Decidable (6 ≤ pc ∧ pc ≤ 8))
  | .outside | .holding => isFalse not_false

/-- The context has left the loop of `spinlock_acquire` and not yet cleared the key. -/
def Activity.Owns : Activity → Prop
  | .acquiring pc => 18 ≤ pc
  | .releasing pc => pc ≤ 7
  | .holding => True
  | .outside => False

/-- The key is set on behalf of the context. -/
def Activity.Marked : Activity → Prop
  | .acquiring pc => 23 ≤ pc
  | .releasing pc => pc ≤ 6
  | .holding => True
  | .outside => False

/-- The context runs one of the two functions. -/
def Activity.Inside : Activity → Prop
  | .acquiring _ | .releasing _ => True
  | _ => False

instance (activity : Activity) : Decidable activity.Owns :=
  match activity with
  | .acquiring pc => inferInstanceAs (Decidable (18 ≤ pc))
  | .releasing pc => inferInstanceAs (Decidable (pc ≤ 7))
  | .outside => isFalse not_false
  | .holding => isTrue trivial

instance (activity : Activity) : Decidable activity.Marked :=
  match activity with
  | .acquiring pc => inferInstanceAs (Decidable (23 ≤ pc))
  | .releasing pc => inferInstanceAs (Decidable (pc ≤ 6))
  | .outside => isFalse not_false
  | .holding => isTrue trivial

theorem Activity.marked_of_owns {activity : Activity} (howns : activity.Owns)
    (hwindow : ¬ activity.InWindow) : activity.Marked := by
  cases activity with
  | acquiring pc =>
      simp only [Activity.Owns, Activity.InWindow, Activity.Marked] at *
      omega
  | releasing pc =>
      simp only [Activity.Owns, Activity.InWindow, Activity.Marked] at *
      omega
  | holding => trivial
  | outside => exact howns

/-! ## The annotation -/

/-- The two bytes just tested are in `r18` and `r19`; if they are not the key they are the
value 1. -/
def Tested (key : BitVec 16) (memory : DataMemory) (cpu : Cpu) (trace : List Access) : Prop :=
  ∃ addr before,
    trace = .load (addr + 1) (cpu.regs .r19) :: .load addr (cpu.regs .r18) :: .cli :: before ∧
      cpu.regs .r18 = memory addr ∧ cpu.regs .r19 = memory (addr + 1) ∧
      (addr ≠ key → cpu.regs .r18 = 1 ∧ cpu.regs .r19 = 0)

/-- The key was found free. -/
def FoundFree (key : BitVec 16) (trace : List Access) : Prop :=
  ∃ lo hi before, ¬ (lo = 1 ∧ hi = 0) ∧
    trace = .load (key + 1) hi :: .load key lo :: .cli :: before

/-- The annotation of `spinlock_acquire`. -/
def acquirePoint (key : BitVec 16) (memory : DataMemory) (cpu : Cpu) (trace : List Access) :
    ℕ → Prop
  | 8 => ∃ before, trace = .cli :: before
  | 9 => ∃ addr before, trace = .load addr (cpu.regs .r18) :: .cli :: before ∧
      cpu.z = addr + 1 ∧ cpu.regs .r18 = memory addr ∧
      (addr ≠ key → cpu.regs .r18 = 1 ∧ memory (addr + 1) = 0)
  | 10 => Tested key memory cpu trace
  | 11 => Tested key memory cpu trace ∧ cpu.flagZ = (cpu.regs .r18 == 1) ∧
      (cpu.flagZ = true → cpu.flagC = false)
  | 12 => Tested key memory cpu trace ∧ cpu.flagZ = (cpu.regs .r18 == 1 && cpu.regs .r19 == 0)
  | 18 => FoundFree key trace
  | 19 => FoundFree key trace ∧ cpu.regs .r18 = 1
  | 20 => FoundFree key trace ∧ cpu.regs .r18 = 1 ∧ cpu.regs .r19 = 0
  | 21 => FoundFree key trace ∧ cpu.regs .r18 = 1 ∧ cpu.regs .r19 = 0 ∧ cpu.z = key
  | 22 => (∃ found, trace = .store key 1 :: found ∧ FoundFree key found) ∧
      cpu.regs .r19 = 0 ∧ cpu.z = key + 1 ∧ memory key = 1
  | 23 => ∃ found, trace = .store (key + 1) 0 :: .store key 1 :: found ∧ FoundFree key found
  | 24 | 25 | 26 | 27 | 28 | 29 => TestAndSet key trace
  | _ => True

/-- The annotation of `spinlock_release`. -/
def releasePoint (key : BitVec 16) (cpu : Cpu) : ℕ → Prop
  | 4 | 5 | 6 => cpu.z = key
  | 7 => cpu.z = key + 1
  | _ => True

/-- What holds of one context. -/
structure ContextOk (key : BitVec 16) (core : Core tid) (t : tid) (context : Context) : Prop where
  zero : context.activity.Inside → context.cpu.regs .r1 = 0
  arg : context.activity.Inside → context.cpu.pair .r25 .r24 = key
  window : context.activity.InWindow → core.running = t ∧ context.cpu.flagI = false
  marked : context.activity.Marked → core.memory key = 1 ∧ core.memory (key + 1) = 0
  acquire : ∀ pc, context.activity = .acquiring pc →
    acquirePoint key core.memory context.cpu context.trace pc
  holding : context.activity = .holding → TestAndSet key context.trace
  release : ∀ pc, context.activity = .releasing pc → releasePoint key context.cpu pc

/-! ## One instruction -/

/-- Without the flag Z the bytes just tested are those of the key. -/
theorem tested_key_of_flagZ (hpoint : acquirePoint key memory cpu trace 12)
    (hflag : cpu.flagZ = false) :
    ¬ (cpu.regs .r18 = 1 ∧ cpu.regs .r19 = 0) ∧
      cpu.regs .r18 = memory key ∧ cpu.regs .r19 = memory (key + 1) ∧ ∃ before,
        trace = .load (key + 1) (cpu.regs .r19) :: .load key (cpu.regs .r18) :: .cli :: before := by
  obtain ⟨⟨addr, before, htrace, hlo, hhi, hstray⟩, hbytes⟩ := hpoint
  have hfree : ¬ (cpu.regs .r18 = 1 ∧ cpu.regs .r19 = 0) := by
    simpa [hflag] using hbytes.symm
  have haddr : addr = key := by
    by_contra hne
    exact hfree (hstray hne)
  subst haddr
  exact ⟨hfree, hlo, hhi, before, htrace⟩

/-- The annotation at the point that a configuration has come to. -/
def AcquireOk (key : BitVec 16) (config : Config) : Prop :=
  acquirePoint key config.memory config.cpu config.trace config.pc

/-! ### The instructions of `spinlock_acquire` that the annotation is about -/

theorem acquireOk_ldInc (hpoint : acquirePoint key memory cpu trace 8)
    (hstrays : cpu.z ≠ key → memory cpu.z = 1 ∧ memory (cpu.z + 1) = 0) :
    AcquireOk key ((Config.mk cpu memory 8 trace).exec (.ldInc .r18)) := by
  obtain ⟨before, htrace⟩ := hpoint
  refine ⟨cpu.z, before, ?_, ?_, ?_, hstrays⟩
  · rw [htrace]
    rfl
  · exact Cpu.z_setZ cpu (cpu.z + 1)
  · rfl

theorem acquireOk_ld (hpoint : acquirePoint key memory cpu trace 9) :
    AcquireOk key ((Config.mk cpu memory 9 trace).exec (.ld .r19)) := by
  obtain ⟨addr, before, htrace, hz, hlo, hstray⟩ := hpoint
  refine ⟨addr, before, ?_, hlo, ?_, ?_⟩
  · rw [htrace, ← hz]
    rfl
  · rw [← hz]
    rfl
  · intro haddr
    exact ⟨(hstray haddr).1, (congrArg memory hz).trans (hstray haddr).2⟩

theorem acquireOk_cpi (hpoint : acquirePoint key memory cpu trace 10) :
    AcquireOk key ((Config.mk cpu memory 10 trace).exec (.cpi .r18 0x01)) := by
  refine ⟨hpoint, Config.flagZ_cpi_one _, ?_⟩
  intro hflag
  apply Config.flagC_cpi_one
  rw [Config.flagZ_cpi_one] at hflag
  exact eq_of_beq hflag

theorem acquireOk_cpc (hzero : cpu.regs .r1 = 0) (hpoint : acquirePoint key memory cpu trace 11) :
    AcquireOk key ((Config.mk cpu memory 11 trace).exec (.cpc .r19 .r1)) := by
  obtain ⟨htested, hflag, hcarry⟩ := hpoint
  refine ⟨htested, ?_⟩
  have hcpc := Config.flagZ_cpc_zero (d := .r19) ⟨cpu, memory, 11, trace⟩ hzero hcarry
  exact hcpc.trans (by rw [hflag]; rfl)

theorem acquireOk_brne (hpoint : acquirePoint key memory cpu trace 12) :
    AcquireOk key ((Config.mk cpu memory 12 trace).exec (.brne 18)) := by
  cases hflag : cpu.flagZ with
  | true => simp [AcquireOk, Config.exec, Config.advance, hflag, acquirePoint]
  | false =>
      obtain ⟨hfree, -, -, before, htrace⟩ := tested_key_of_flagZ hpoint hflag
      simp only [AcquireOk, Config.exec, hflag, Bool.false_eq_true, if_false]
      exact ⟨_, _, before, hfree, htrace⟩

theorem acquireOk_stInc (hpoint : acquirePoint key memory cpu trace 21) :
    AcquireOk key ((Config.mk cpu memory 21 trace).exec (.stInc .r18)) := by
  obtain ⟨hfound, hlo, hhi, hz⟩ := hpoint
  refine ⟨⟨trace, ?_, hfound⟩, hhi, ?_, ?_⟩
  · rw [← hlo, ← hz]
    rfl
  · rw [← hz]
    exact Cpu.z_setZ cpu (cpu.z + 1)
  · rw [← hlo, ← hz]
    exact Function.update_self ..

theorem acquireOk_st (hpoint : acquirePoint key memory cpu trace 22) :
    AcquireOk key ((Config.mk cpu memory 22 trace).exec (.st .r19)) := by
  obtain ⟨⟨found, htrace, hfound⟩, hhi, hz, -⟩ := hpoint
  refine ⟨found, ?_, hfound⟩
  rw [← hhi, ← hz, ← htrace]
  rfl

theorem acquireOk_outSreg (hpoint : acquirePoint key memory cpu trace 23) :
    AcquireOk key ((Config.mk cpu memory 23 trace).exec (.outSreg .r0)) := by
  obtain ⟨found, htrace, lo, hi, before, hfree, rfl⟩ := hpoint
  refine ⟨lo, hi, before, hfree, ?_⟩
  rw [htrace]
  rfl

section Exec

variable {pc : ℕ} {instr : Instr}

theorem acquireOk_exec (hzero : cpu.regs .r1 = 0) (harg : cpu.pair .r25 .r24 = key)
    (hpoint : acquirePoint key memory cpu trace pc)
    (hstrays : pc = 8 → cpu.z ≠ key → memory cpu.z = 1 ∧ memory (cpu.z + 1) = 0)
    (hcode : spinlockAcquire[pc]? = some instr) (hret : instr ≠ .ret) :
    AcquireOk key ((Config.mk cpu memory pc trace).exec instr) := by
  have hlt : pc < 30 := (List.getElem?_eq_some_iff.mp hcode).1
  interval_cases pc
  all_goals cases hcode
  -- up to the label
  iterate 7 exact trivial
  -- cli
  · exact ⟨trace, rfl⟩
  · exact acquireOk_ldInc hpoint (hstrays rfl)
  · exact acquireOk_ld hpoint
  · exact acquireOk_cpi hpoint
  · exact acquireOk_cpc hzero hpoint
  · exact acquireOk_brne hpoint
  -- the way back to the label
  iterate 5 exact trivial
  -- ldi r18, 0x01
  · exact ⟨hpoint, rfl⟩
  -- mov r19, r1
  · exact ⟨hpoint.1, hpoint.2, hzero⟩
  -- movw r30, r24
  · exact ⟨hpoint.1, hpoint.2.1, hpoint.2.2, harg⟩
  · exact acquireOk_stInc hpoint
  · exact acquireOk_st hpoint
  · exact acquireOk_outSreg hpoint
  -- the registers are restored
  iterate 5 exact hpoint
  · exact absurd rfl hret

theorem releasePoint_exec (harg : cpu.pair .r25 .r24 = key) (hpoint : releasePoint key cpu pc)
    (hcode : spinlockRelease[pc]? = some instr) (hret : instr ≠ .ret) :
    let config := (Config.mk cpu memory pc trace).exec instr
    releasePoint key config.cpu config.pc := by
  have hlt : pc < 13 := (List.getElem?_eq_some_iff.mp hcode).1
  interval_cases pc
  all_goals cases hcode
  iterate 3 exact trivial
  -- movw r30, r24
  · exact harg
  -- in r0, SREG and cli
  iterate 2 exact hpoint
  -- st Z+, r1
  · exact (Cpu.z_setZ cpu (cpu.z + 1)).trans (congrArg (· + 1) hpoint)
  iterate 5 exact trivial
  · exact absurd rfl hret

/-- How control enters a window, the stretch where the key is set, and the stretch that owns
the lock, and what it cannot do on the way through them.  `marks` and `takes` say that the
instruction is the one that completes the mark, or the one that takes the lock. -/
structure Flow (before after : Activity) (instr : Instr) (marks takes : Prop) : Prop where
  window : after.InWindow → instr = .cli ∨ before.InWindow ∧ instr.keepsI = true
  marked : after.Marked → marks ∨ before.Marked ∧ instr.keepsMemory = true
  owns : after.Owns → takes ∨ before.Owns
  memory : instr.keepsMemory = true ∨ before.Owns

instance (before after : Activity) (instr : Instr) (marks takes : Prop) [Decidable marks]
    [Decidable takes] : Decidable (Flow before after instr marks takes) :=
  decidable_of_iff
    ((after.InWindow → instr = .cli ∨ before.InWindow ∧ instr.keepsI = true) ∧
      (after.Marked → marks ∨ before.Marked ∧ instr.keepsMemory = true) ∧
      (after.Owns → takes ∨ before.Owns) ∧ (instr.keepsMemory = true ∨ before.Owns))
    ⟨fun h => ⟨h.1, h.2.1, h.2.2.1, h.2.2.2⟩, fun h => ⟨h.window, h.marked, h.owns, h.memory⟩⟩

theorem acquire_flow : ∀ pc < 30, ∀ instr ∈ spinlockAcquire[pc]?, ∀ pc' ∈ instr.next pc,
    Flow (.acquiring pc) (.acquiring pc') instr (pc = 22) (pc = 12) := by
  decide

theorem release_flow : ∀ pc < 13, ∀ instr ∈ spinlockRelease[pc]?, ∀ pc' ∈ instr.next pc,
    Flow (.releasing pc) (.releasing pc') instr False False := by
  decide

/-- Neither function touches its argument, and `r1` stays 0. -/
theorem code_keeps_args : ∀ instr ∈ spinlockAcquire ++ spinlockRelease,
    .r24 ∉ instr.writes ∧ .r25 ∉ instr.writes ∧ (.r1 ∈ instr.writes → instr = .eor .r1 .r1) := by
  decide

theorem regs_exec (hmem : instr ∈ spinlockAcquire ++ spinlockRelease)
    (hzero : cpu.regs .r1 = 0) (harg : cpu.pair .r25 .r24 = key) :
    let config := (Config.mk cpu memory pc trace).exec instr
    config.cpu.regs .r1 = 0 ∧ config.cpu.pair .r25 .r24 = key := by
  obtain ⟨h24, h25, h1⟩ := code_keeps_args instr hmem
  constructor
  · by_cases hwrites : .r1 ∈ instr.writes
    · rw [h1 hwrites]
      exact BitVec.xor_self
    · rw [Config.exec_regs _ hwrites]
      exact hzero
  · rw [Cpu.pair, Config.exec_regs _ h24, Config.exec_regs _ h25]
    exact harg

end Exec

/-! ## The moves of a context -/

/-- A context behind its next instruction. -/
def Context.after (context : Context) (core : Core tid) (pc : ℕ) (instr : Instr) : Config :=
  (Config.mk context.cpu core.memory pc context.trace).exec instr

section Code

variable {core : Core tid} {context : Context} {pc : ℕ} {instr : Instr}

theorem acquire_flow_after (hcode : spinlockAcquire[pc]? = some instr) :
    Flow (.acquiring pc) (.acquiring (context.after core pc instr).pc) instr (pc = 22) (pc = 12) :=
  acquire_flow pc (List.getElem?_eq_some_iff.mp hcode).1 instr hcode _ (Config.exec_pc _ instr)

theorem release_flow_after (hcode : spinlockRelease[pc]? = some instr) :
    Flow (.releasing pc) (.releasing (context.after core pc instr).pc) instr False False :=
  release_flow pc (List.getElem?_eq_some_iff.mp hcode).1 instr hcode _ (Config.exec_pc _ instr)

theorem Context.memory_after (hkeep : instr.keepsMemory = true) :
    (context.after core pc instr).memory = core.memory :=
  Config.exec_memory _ hkeep

/-- An instruction of the two functions leaves the argument and the zero register. -/
theorem ContextOk.regs_after {t : tid} (hok : ContextOk key core t context)
    (hinside : context.activity.Inside) (hmem : instr ∈ spinlockAcquire ++ spinlockRelease) :
    (context.after core pc instr).cpu.regs .r1 = 0 ∧
      (context.after core pc instr).cpu.pair .r25 .r24 = key :=
  regs_exec hmem (hok.zero hinside) (hok.arg hinside)

/-- Interrupts are off behind an instruction that leads into a window. -/
theorem ContextOk.flagI_after {t : tid} (hok : ContextOk key core t context) {after : Activity}
    {marks takes : Prop} (hflow : Flow context.activity after instr marks takes)
    (hwindow : after.InWindow) : (context.after core pc instr).cpu.flagI = false := by
  rcases hflow.window hwindow with rfl | ⟨hin, hkeep⟩
  · exact Config.exec_cli_flagI _
  · exact (Config.exec_flagI _ hkeep).trans (hok.window hin).2

end Code

/-- What the context that has the core can do. -/
inductive SpinMove (key : BitVec 16) : Choice tid → Core tid → Context → Core tid → Context → Prop
  | switch {core context} (next : tid) (hflag : context.cpu.flagI = true) :
      SpinMove key (.switchTo next) core context { core with running := next } context
  | acquire {core context} (pc : ℕ) (instr : Instr) (hactivity : context.activity = .acquiring pc)
      (hcode : spinlockAcquire[pc]? = some instr) (hret : instr ≠ .ret) :
      SpinMove key .exec core context
        { core with memory := (context.after core pc instr).memory }
        ⟨.acquiring (context.after core pc instr).pc, (context.after core pc instr).cpu,
          (context.after core pc instr).trace⟩
  | acquired {core context} (hactivity : context.activity = .acquiring 29) :
      SpinMove key .exec core context core { context with activity := .holding }
  | release {core context} (pc : ℕ) (instr : Instr) (hactivity : context.activity = .releasing pc)
      (hcode : spinlockRelease[pc]? = some instr) (hret : instr ≠ .ret) :
      SpinMove key .exec core context
        { core with memory := (context.after core pc instr).memory }
        ⟨.releasing (context.after core pc instr).pc, (context.after core pc instr).cpu,
          (context.after core pc instr).trace⟩
  | released {core context} (hactivity : context.activity = .releasing 12) :
      SpinMove key .exec core context core { context with activity := .outside }
  | callAcquire {core context} (cpu : Cpu) (hactivity : context.activity = .outside) :
      SpinMove key (.call cpu) core context core
        ⟨.acquiring 0, { cpu with regs := callRegs key cpu.regs }, []⟩
  | callRelease {core context} (cpu : Cpu) (hactivity : context.activity = .holding) :
      SpinMove key (.call cpu) core context core
        ⟨.releasing 0, { cpu with regs := callRegs key cpu.regs }, context.trace⟩
  | work {core context} (cpu : Cpu) (addr : BitVec 16) (value : BitVec 8)
      (hactivity : context.activity = .outside ∨ context.activity = .holding)
      (hlo : addr ≠ key) (hhi : addr ≠ key + 1) :
      SpinMove key (.work cpu addr value) core context
        { core with memory := Function.update core.memory addr value } { context with cpu := cpu }

/-- The only returns are at the end of the code. -/
theorem ret_positions :
    (∀ pc < 30, spinlockAcquire[pc]? = some .ret → pc = 29) ∧
      ∀ pc < 13, spinlockRelease[pc]? = some .ret → pc = 12 := by
  decide

variable {t p q : tid} {choice : Choice tid} {core core' : Core tid}
  {context context' rival : Context}

theorem stepCode_cases {code : List Instr} {pc : ℕ} {inside : ℕ → Activity} {after : Activity}
    (hstep : stepCode code pc inside after core context = some (core', context')) :
    (code[pc]? = some .ret ∧ core' = core ∧ context' = { context with activity := after }) ∨
      ∃ instr, code[pc]? = some instr ∧ instr ≠ .ret ∧
        core' = { core with memory := (context.after core pc instr).memory } ∧
          context' = ⟨inside (context.after core pc instr).pc, (context.after core pc instr).cpu,
            (context.after core pc instr).trace⟩ := by
  rw [stepCode] at hstep
  split at hstep
  · cases hstep
  · rename_i hcode
    cases hstep
    exact .inl ⟨hcode, rfl, rfl⟩
  · rename_i instr hret hcode
    cases hstep
    exact .inr ⟨instr, hcode, fun heq => hret (heq ▸ rfl), rfl, rfl⟩

theorem SpinMove.of_act [DecidableEq tid]
    (hact : spinAct key t choice core context = some (core', context')) :
    core.running = t ∧ SpinMove key choice core context core' context' := by
  by_cases hrunning : core.running = t
  · refine ⟨hrunning, ?_⟩
    obtain ⟨activity, cpu, trace⟩ := context
    unfold spinAct at hact
    rw [if_pos hrunning] at hact
    cases choice with
    | switchTo next =>
        by_cases hflag : cpu.flagI = true
        · simp only [hflag, if_true] at hact
          cases hact
          exact .switch next hflag
        · simp [hflag] at hact
    | exec =>
        cases activity with
        | outside | holding => simp at hact
        | acquiring pc =>
            rcases stepCode_cases hact with ⟨hcode, rfl, rfl⟩ | ⟨instr, hcode, hret, rfl, rfl⟩
            · obtain rfl := ret_positions.1 pc (List.getElem?_eq_some_iff.mp hcode).1 hcode
              exact .acquired rfl
            · exact .acquire pc instr rfl hcode hret
        | releasing pc =>
            rcases stepCode_cases hact with ⟨hcode, rfl, rfl⟩ | ⟨instr, hcode, hret, rfl, rfl⟩
            · obtain rfl := ret_positions.2 pc (List.getElem?_eq_some_iff.mp hcode).1 hcode
              exact .released rfl
            · exact .release pc instr rfl hcode hret
    | call called =>
        cases activity with
        | outside =>
            cases hact
            exact .callAcquire called rfl
        | holding =>
            cases hact
            exact .callRelease called rfl
        | acquiring pc | releasing pc => simp at hact
    | work left addr value =>
        cases activity with
        | acquiring pc | releasing pc => simp at hact
        | outside =>
            obtain ⟨haddr, hact⟩ := Option.ite_none_left_eq_some.mp hact
            cases hact
            exact .work left addr value (.inl rfl) (fun h => haddr (.inl h)) fun h => haddr (.inr h)
        | holding =>
            obtain ⟨haddr, hact⟩ := Option.ite_none_left_eq_some.mp hact
            cases hact
            exact .work left addr value (.inr rfl) (fun h => haddr (.inl h)) fun h => haddr (.inr h)
  · unfold spinAct at hact
    rw [if_neg hrunning] at hact
    cases hact

/-! ## The annotation holds throughout every run -/

theorem key_ne_succ (key : BitVec 16) : key ≠ key + 1 := by
  bv_omega

/-- The second store of `spinlock_acquire` completes the mark. -/
theorem marked_of_store (hpoint : acquirePoint key memory cpu trace 22) :
    let config := (Config.mk cpu memory 22 trace).exec (.st .r19)
    config.memory key = 1 ∧ config.memory (key + 1) = 0 := by
  obtain ⟨-, hhi, hz, hset⟩ := hpoint
  constructor
  · have hne : key ≠ cpu.z := hz ▸ key_ne_succ key
    exact (Function.update_of_ne hne _ _).trans hset
  · rw [← hz, ← hhi]
    exact Function.update_self ..

theorem ContextOk.acquire_self (hok : ContextOk key core t context) (hrunning : core.running = t)
    {pc : ℕ} {instr : Instr} (hactivity : context.activity = .acquiring pc)
    (hcode : spinlockAcquire[pc]? = some instr) (hret : instr ≠ .ret)
    (hstrays : StraysIntoOne key t .exec core context) :
    ContextOk key { core with memory := (context.after core pc instr).memory } t
      ⟨.acquiring (context.after core pc instr).pc, (context.after core pc instr).cpu,
        (context.after core pc instr).trace⟩ := by
  have hinside : context.activity.Inside := by
    rw [hactivity]
    trivial
  have hflow := @acquire_flow_after tid core context pc instr hcode
  rw [← hactivity] at hflow
  obtain ⟨hzero, harg⟩ := @regs_after tid key core context pc instr t hok hinside
    (List.mem_append_left _ (List.mem_of_getElem? hcode))
  have hpoint := acquireOk_exec (hok.zero hinside) (hok.arg hinside)
    (hok.acquire pc hactivity) (fun hpc => hstrays rfl (hpc ▸ hactivity)) hcode hret
  constructor
  · exact fun _ => hzero
  · exact fun _ => harg
  · exact fun h => ⟨hrunning, hok.flagI_after hflow h⟩
  · intro h
    rcases hflow.marked h with rfl | ⟨hin, hkeep⟩
    · cases hcode
      exact marked_of_store (hok.acquire 22 hactivity)
    · rw [Context.memory_after hkeep]
      exact hok.marked hin
  · rintro pc' hpc
    cases hpc
    exact hpoint
  · exact nofun
  · exact nofun

theorem ContextOk.release_self (hok : ContextOk key core t context) (hrunning : core.running = t)
    {pc : ℕ} {instr : Instr} (hactivity : context.activity = .releasing pc)
    (hcode : spinlockRelease[pc]? = some instr) (hret : instr ≠ .ret) :
    ContextOk key { core with memory := (context.after core pc instr).memory } t
      ⟨.releasing (context.after core pc instr).pc, (context.after core pc instr).cpu,
        (context.after core pc instr).trace⟩ := by
  have hinside : context.activity.Inside := by
    rw [hactivity]
    trivial
  have hflow := @release_flow_after tid core context pc instr hcode
  rw [← hactivity] at hflow
  obtain ⟨hzero, harg⟩ := @regs_after tid key core context pc instr t hok hinside
    (List.mem_append_right _ (List.mem_of_getElem? hcode))
  constructor
  · exact fun _ => hzero
  · exact fun _ => harg
  · exact fun h => ⟨hrunning, hok.flagI_after hflow h⟩
  · intro h
    obtain ⟨hin, hkeep⟩ := (hflow.marked h).resolve_left id
    rw [Context.memory_after hkeep]
    exact hok.marked hin
  · exact nofun
  · exact nofun
  · rintro pc' hpc
    cases hpc
    exact releasePoint_exec (hok.arg hinside) (hok.release pc hactivity) hcode hret

theorem callRegs_arg (key : BitVec 16) (cpu : Cpu) :
    Cpu.pair { cpu with regs := callRegs key cpu.regs } .r25 .r24 = key :=
  @BitVec.extractLsb'_append_extractLsb' 8 8 key

theorem ContextOk.self (hok : ContextOk key core t context) (hrunning : core.running = t)
    (hstrays : StraysIntoOne key t choice core context)
    (hmove : SpinMove key choice core context core' context') : ContextOk key core' t context' := by
  cases hmove with
  | switch next hflag =>
      refine ⟨hok.zero, hok.arg, fun h => ?_, hok.marked, hok.acquire, hok.holding, hok.release⟩
      have hoff := (hok.window h).2
      rw [hflag] at hoff
      cases hoff
  | acquire pc instr hactivity hcode hret =>
      exact hok.acquire_self hrunning hactivity hcode hret hstrays
  | acquired hactivity =>
      refine ⟨nofun, nofun, nofun, fun _ => ?_, nofun, fun _ => ?_, nofun⟩
      · apply hok.marked
        rw [hactivity]
        decide
      · exact hok.acquire 29 hactivity
  | release pc instr hactivity hcode hret => exact hok.release_self hrunning hactivity hcode hret
  | released hactivity => exact ⟨nofun, nofun, nofun, nofun, nofun, nofun, nofun⟩
  | callAcquire cpu hactivity =>
      refine ⟨fun _ => rfl, fun _ => callRegs_arg key cpu, ?_, ?_, ?_, nofun, nofun⟩
      · exact fun h => absurd h (by simp [Activity.InWindow])
      · exact fun h => absurd h (by simp [Activity.Marked])
      · rintro pc hpc
        cases hpc
        trivial
  | callRelease cpu hactivity =>
      refine ⟨fun _ => rfl, fun _ => callRegs_arg key cpu, ?_, fun _ => ?_, nofun, nofun, ?_⟩
      · exact fun h => absurd h (by simp [Activity.InWindow])
      · apply hok.marked
        rw [hactivity]
        trivial
      · rintro pc hpc
        cases hpc
        trivial
  | work cpu addr value hactivity hlo hhi =>
      have hinside : ¬ context.activity.Inside := by
        rcases hactivity with h | h
        · simp [h, Activity.Inside]
        · simp [h, Activity.Inside]
      have hwindow : ¬ context.activity.InWindow := by
        rcases hactivity with h | h
        · simp [h, Activity.InWindow]
        · simp [h, Activity.InWindow]
      refine ⟨fun h => absurd h hinside, fun h => absurd h hinside, fun h => absurd h hwindow,
        fun h => ?_, fun pc h => ?_, hok.holding, fun pc h => ?_⟩
      · obtain ⟨hone, hzero⟩ := hok.marked h
        exact ⟨(Function.update_of_ne (Ne.symm hlo) _ _).trans hone,
          (Function.update_of_ne (Ne.symm hhi) _ _).trans hzero⟩
      · exact absurd (show context.activity.Inside from h ▸ trivial) hinside
      · exact absurd (show context.activity.Inside from h ▸ trivial) hinside

/-- Outside the windows the annotation does not speak about memory. -/
theorem acquirePoint_congr {pc : ℕ} {memory' : DataMemory}
    (hwindow : ¬ (Activity.acquiring pc).InWindow) (hpoint : acquirePoint key memory cpu trace pc) :
    acquirePoint key memory' cpu trace pc := by
  unfold acquirePoint at hpoint ⊢
  split at hpoint
  all_goals first
    | exact hpoint
    | exact absurd (by decide) hwindow

/-- A move that changes the key is made by the owner of the lock. -/
theorem SpinMove.key_or_owns (hmove : SpinMove key choice core context core' context') :
    context.activity.Owns ∨
      core'.memory key = core.memory key ∧ core'.memory (key + 1) = core.memory (key + 1) := by
  cases hmove with
  | acquire pc instr hactivity hcode hret =>
      rcases (@acquire_flow_after tid core context pc instr hcode).memory with hkeep | howns
      · rw [Context.memory_after hkeep]
        exact .inr ⟨rfl, rfl⟩
      · exact .inl (hactivity ▸ howns)
  | release pc instr hactivity hcode hret =>
      rcases (@release_flow_after tid core context pc instr hcode).memory with hkeep | howns
      · rw [Context.memory_after hkeep]
        exact .inr ⟨rfl, rfl⟩
      · exact .inl (hactivity ▸ howns)
  | work cpu addr value hactivity hlo hhi =>
      exact .inr ⟨Function.update_of_ne (Ne.symm hlo) _ _, Function.update_of_ne (Ne.symm hhi) _ _⟩
  | _ => exact .inr ⟨rfl, rfl⟩

theorem Activity.owns_of_marked {activity : Activity} (hmarked : activity.Marked) :
    activity.Owns := by
  cases activity with
  | acquiring pc =>
      simp only [Activity.Owns, Activity.Marked] at *
      omega
  | releasing pc =>
      simp only [Activity.Owns, Activity.Marked] at *
      omega
  | holding => trivial
  | outside => exact hmarked

theorem ContextOk.other (hok : ContextOk key core p rival) (hne : p ≠ t)
    (hrunning : core.running = t) (hboth : ¬ (rival.activity.Owns ∧ context.activity.Owns))
    (hmove : SpinMove key choice core context core' context') : ContextOk key core' p rival := by
  have hwindow : ¬ rival.activity.InWindow := fun h =>
    hne ((hok.window h).1.symm.trans hrunning)
  refine ⟨hok.zero, hok.arg, fun h => absurd h hwindow, fun h => ?_, fun pc h => ?_, hok.holding,
    hok.release⟩
  · rcases hmove.key_or_owns with howns | ⟨hlo, hhi⟩
    · exact absurd ⟨Activity.owns_of_marked h, howns⟩ hboth
    · rw [hlo, hhi]
      exact hok.marked h
  · exact acquirePoint_congr (h ▸ hwindow) (hok.acquire pc h)

/-- The branch out of the loop is taken when the key is not 1. -/
theorem free_of_branch (hpoint : acquirePoint key memory cpu trace 12)
    (howns : (Activity.acquiring
      ((Config.mk cpu memory 12 trace).exec (.brne 18)).pc).Owns) :
    ¬ (memory key = 1 ∧ memory (key + 1) = 0) := by
  cases hflag : cpu.flagZ with
  | true => simp [Config.exec, Config.advance, hflag, Activity.Owns] at howns
  | false =>
      obtain ⟨hfree, hlo, hhi, -⟩ := tested_key_of_flagZ hpoint hflag
      rwa [← hlo, ← hhi]

/-- A context comes to own the lock only when it finds the key free. -/
theorem ContextOk.owns_of_move (hok : ContextOk key core t context)
    (hmove : SpinMove key choice core context core' context') (howns : context'.activity.Owns) :
    context.activity.Owns ∨ ¬ (core.memory key = 1 ∧ core.memory (key + 1) = 0) := by
  cases hmove with
  | switch next hflag => exact .inl howns
  | acquire pc instr hactivity hcode hret =>
      rcases (acquire_flow_after hcode).owns howns with rfl | h
      · cases hcode
        exact .inr (free_of_branch (hok.acquire 12 hactivity) howns)
      · exact .inl (hactivity ▸ h)
  | acquired hactivity =>
      left
      rw [hactivity]
      decide
  | release pc instr hactivity hcode hret =>
      have howned := ((release_flow_after hcode).owns howns).resolve_left id
      exact .inl (hactivity ▸ howned)
  | released hactivity => exact howns.elim
  | callAcquire cpu hactivity => exact absurd howns (by simp [Activity.Owns])
  | callRelease cpu hactivity =>
      left
      rw [hactivity]
      trivial
  | work cpu addr value hactivity hlo hhi => exact .inl howns

/-- No two contexts own the lock. -/
def NotBoth (_core : Core tid) (_p : tid) (context : Context) (_q : tid) (rival : Context) : Prop :=
  ¬ (context.activity.Owns ∧ rival.activity.Owns)

theorem NotBoth.move (hboth : ¬ (context.activity.Owns ∧ rival.activity.Owns))
    (hok : ContextOk key core t context) (hrival : ContextOk key core q rival) (hne : q ≠ t)
    (hrunning : core.running = t) (hmove : SpinMove key choice core context core' context') :
    ¬ (context'.activity.Owns ∧ rival.activity.Owns) := by
  rintro ⟨howns, hrivalOwns⟩
  rcases hok.owns_of_move hmove howns with h | hfree
  · exact hboth ⟨h, hrivalOwns⟩
  · have hwindow : ¬ rival.activity.InWindow := fun h =>
      hne ((hrival.window h).1.symm.trans hrunning)
    exact hfree (hrival.marked (Activity.marked_of_owns hrivalOwns hwindow))

theorem spin_nonInterfering [DecidableEq tid] (key : BitVec 16) :
    Pool.NonInterfering (@spinAct tid _ key) (StraysIntoOne key) (ContextOk key) NotBoth where
  own_self := by
    intro t c core context core' context' hok hstrays hact
    obtain ⟨hrunning, hmove⟩ := SpinMove.of_act hact
    exact hok.self hrunning hstrays hmove
  own_other := by
    intro t c core context core' context' p l hok _ hact hne hrival hboth
    obtain ⟨hrunning, hmove⟩ := SpinMove.of_act hact
    exact hrival.other hne hrunning hboth hmove
  pair_left := by
    intro t c core context core' context' q k hok _ hact hne hrival hboth
    obtain ⟨hrunning, hmove⟩ := SpinMove.of_act hact
    exact NotBoth.move hboth hok hrival hne hrunning hmove
  pair_right := by
    intro t c core context core' context' p l hok _ hact hne hrival hboth
    obtain ⟨hrunning, hmove⟩ := SpinMove.of_act hact
    have hboth' := NotBoth.move (fun h => hboth h.symm) hok hrival hne hrunning hmove
    exact fun h => hboth' h.symm
  pair_other := fun _ _ _ _ _ _ _ _ _ _ _ _ _ _ _ => id

/-- In every run in which no retry leaves the loop at an address other than the key, the spinlock
is a test-and-set, and it excludes. -/
theorem spinlockSafe_of_reachable [DecidableEq tid] {pool : Pool tid (Core tid) Context}
    (hreach : (spinSystem key).Reachable (Pool.localGuard (StraysIntoOne key)) pool) :
    SpinlockSafe key pool := by
  have hstart : ∀ core : Core tid, True → ∀ t, ContextOk key core t .start := by
    intro core _ t
    exact ⟨nofun, nofun, nofun, nofun, nofun, nofun, nofun⟩
  have hasserts := Pool.asserts_of_reachable (spin_nonInterfering key) hstart
    (fun _ _ _ _ _ => fun h => h.1) hreach
  refine ⟨fun t h => (hasserts.own t).holding h, fun p q hp hq => ?_⟩
  by_contra hne
  apply hasserts.pair p q hne
  rw [hp, hq]
  exact ⟨trivial, trivial⟩

/-! ## Two contexts -/

instance (key : BitVec 16) (t : tid) (choice : Choice tid) (core : Core tid) (context : Context) :
    Decidable (StraysIntoOne key t choice core context) :=
  match choice with
  | .exec => decidable_of_iff (context.activity = .acquiring 8 → context.cpu.z ≠ key →
      core.memory context.cpu.z = 1 ∧ core.memory (context.cpu.z + 1) = 0)
      ⟨fun h _ => h, fun h => h rfl⟩
  | .switchTo _ | .call _ | .work _ _ _ => isTrue nofun

/-- Contexts before their first calls, in zeroed memory; one of them has the core. -/
def spinIdle (running : tid) : Pool tid (Core tid) Context :=
  ⟨⟨fun _ => 0, running⟩, fun _ => .start⟩

/-- A context that has the core calls `spinlock_acquire` and returns from it. -/
def firstTakes (first : tid) : List (tid × Choice tid) :=
  (first, .call Context.start.cpu) :: List.replicate 25 (first, .exec)

/-- A second one gets the core and calls `spinlock_acquire`; it goes round once. -/
def secondTakes (first second : tid) : List (tid × Choice tid) :=
  (first, .switchTo second) :: (second, .call Context.start.cpu) ::
    List.replicate 36 (second, .exec)

theorem spinlockSafe_firstTakes : ∃ pool : Pool (Fin 2) (Core (Fin 2)) Context,
    (spinSystem 0x100).Reachable (Pool.localGuard (StraysIntoOne 0x100)) pool ∧
      (pool.thread 0).activity = .holding ∧ SpinlockSafe 0x100 pool := by
  have hstart : (spinSystem 0x100).Reachable (Pool.localGuard (StraysIntoOne 0x100))
      (spinIdle (0 : Fin 2)) :=
    .start ⟨trivial, fun _ => rfl⟩
  have htest : (TransitionSystem.replay (Pool.step (spinAct 0x100))
      (Pool.localGuard (StraysIntoOne 0x100)) (firstTakes 0)
      (spinIdle (0 : Fin 2))).any
        (fun pool => (pool.thread 0).activity = .holding) = true := by
    decide +kernel
  obtain ⟨pool, hreach, hpool⟩ := hstart.exists_replay htest
  exact ⟨pool, hreach, of_decide_eq_true hpool, spinlockSafe_of_reachable hreach⟩

/-- While context 0 holds the lock, context 1 fails its first test and passes the second, which
looks at the high byte of the key and the byte behind it. -/
theorem exists_reachable_not_spinlockSafe : ∃ pool : Pool (Fin 2) (Core (Fin 2)) Context,
    (spinSystem 0x100).Reachable (fun _ _ => True) pool ∧
      ¬ SpinlockSafe 0x100 pool := by
  have hstart : (spinSystem 0x100).Reachable (fun _ _ => True)
      (spinIdle (0 : Fin 2)) :=
    .start ⟨trivial, fun _ => rfl⟩
  have htest : (TransitionSystem.replay (Pool.step (spinAct 0x100)) (fun _ _ => True)
      (firstTakes 0 ++ secondTakes 0 1) (spinIdle (0 : Fin 2))).any (fun pool =>
        (pool.thread 0).activity = .holding ∧ (pool.thread 1).activity = .holding) = true := by
    decide +kernel
  obtain ⟨pool, hreach, hpool⟩ := hstart.exists_replay htest
  obtain ⟨hfirst, hsecond⟩ := of_decide_eq_true hpool
  refine ⟨pool, hreach, fun hsafe => ?_⟩
  exact absurd (hsafe.exclusive 0 1 hfirst hsecond) (by decide)

end Cyancore.Locks
