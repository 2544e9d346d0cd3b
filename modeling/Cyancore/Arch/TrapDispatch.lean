/-
# Handlers and frames over many traps

The tables of handlers are filled in by registrations and read by every trap, and the
static that holds the current frame is written by every trap on its core.  Both are
followed here over whole histories: what a trap calls after any registrations, and what
`get_context_frame` gives a handler when traps nest.
-/

import Cyancore.Arch.Trap
import Cyancore.Math.Transition

namespace Cyancore.Riscv

open Cyancore.Math TransitionSystem

/-! ## What a trap calls -/

/-- A call of one of the registration functions, on a core. -/
structure Registration where
  /-- `local_register_interrupt_handler`, rather than `arch_register_interrupt_handler`. -/
  interrupt : Bool
  cpuid : ℕ
  id : ℕ
  handler : Isr
  deriving DecidableEq, Repr

/-- The table for interrupts or for exceptions. -/
def Kernel.table (kernel : Kernel) (interrupt : Bool) : ℕ → ℕ → Option Isr :=
  if interrupt then kernel.irqhandler else kernel.exhandler

/-- The length of its rows. -/
def TrapConfig.size (config : TrapConfig) (interrupt : Bool) : ℕ :=
  if interrupt then config.nIrq else config.nExcep

/-- The function that its initializer names. -/
def defaultIsr (interrupt : Bool) : Isr :=
  if interrupt then .archUnhandledIrq else .archPanicHandler

/-- The tables as they are initialized: the initializer `{{[0 ... N-1] = f}}` covers the first
row, and the others are null. -/
def Kernel.initial (config : TrapConfig) (mem : ByteSpace) : Kernel where
  mem := mem
  exhandler cpuid id := if cpuid = 0 ∧ id < config.nExcep then some .archPanicHandler else none
  irqhandler cpuid id := if cpuid = 0 ∧ id < config.nIrq then some .archUnhandledIrq else none
  localFrame _ := none

/-- Make the registration. -/
def Registration.apply (config : TrapConfig) (registration : Registration) (kernel : Kernel) :
    Outcome TrapFault Kernel :=
  if registration.interrupt then
    localRegisterInterruptHandler config registration.cpuid registration.id
      (some registration.handler) kernel
  else
    archRegisterInterruptHandler config registration.cpuid registration.id
      (some registration.handler) kernel

/-- Make the registrations in order. -/
def registerAll (config : TrapConfig) : List Registration → Kernel → Outcome TrapFault Kernel
  | [], kernel => .done kernel
  | registration :: registrations, kernel => do
      let kernel ← registration.apply config kernel
      registerAll config registrations kernel

/-- The registration is for this entry. -/
def Registration.IsFor (registration : Registration) (interrupt : Bool) (cpuid id : ℕ) : Prop :=
  registration.interrupt = interrupt ∧ registration.cpuid = cpuid ∧ registration.id = id

instance (registration : Registration) (interrupt : Bool) (cpuid id : ℕ) :
    Decidable (registration.IsFor interrupt cpuid id) :=
  inferInstanceAs (Decidable (_ ∧ _ ∧ _))

/-- The handler that was registered last for an entry. -/
def lastFor (interrupt : Bool) (cpuid id : ℕ) : List Registration → Option Isr
  | [] => none
  | registration :: registrations =>
      (lastFor interrupt cpuid id registrations).or
        (if registration.IsFor interrupt cpuid id then some registration.handler else none)

section Dispatch

variable {config : TrapConfig} {kernel kernel' : Kernel} {interrupt : Bool} {cpuid id : ℕ}

theorem setEntry_apply (table : ℕ → ℕ → Option Isr) (cpuid id cpuid' id' : ℕ)
    (handler : Option Isr) : setEntry table cpuid id handler cpuid' id' =
      if cpuid = cpuid' ∧ id = id' then handler else table cpuid' id' := by
  unfold setEntry
  by_cases hcore : cpuid' = cpuid
  · subst hcore
    rw [Function.update_self]
    by_cases hid : id' = id
    · subst hid
      simp
    · rw [Function.update_of_ne hid, if_neg (fun h => hid h.2.symm)]
  · rw [Function.update_of_ne hcore, if_neg (fun h => hcore h.1.symm)]

/-- A registration that is accepted writes its own entry, in its own table. -/
theorem table_of_apply {registration : Registration}
    (happly : registration.apply config kernel = .done kernel') :
    kernel'.table interrupt cpuid id =
      if registration.IsFor interrupt cpuid id then some registration.handler
      else kernel.table interrupt cpuid id := by
  obtain ⟨kind, core, entry, handler⟩ := registration
  unfold Registration.apply at happly
  cases kind with
  | true =>
      simp only [localRegisterInterruptHandler, if_true] at happly
      split at happly
      · cases happly
        cases interrupt <;> simp [Kernel.table, Registration.IsFor, setEntry_apply]
      · cases happly
  | false =>
      simp only [archRegisterInterruptHandler, Bool.false_eq_true, if_false] at happly
      split at happly
      · cases happly
        cases interrupt <;> simp [Kernel.table, Registration.IsFor, setEntry_apply]
      · cases happly

/-- After any registrations an entry holds what was registered last for it, or what it held
before them. -/
theorem table_of_registerAll {registrations : List Registration}
    (hrun : registerAll config registrations kernel = .done kernel') :
    kernel'.table interrupt cpuid id =
      (lastFor interrupt cpuid id registrations).or (kernel.table interrupt cpuid id) := by
  induction registrations generalizing kernel with
  | nil =>
      cases hrun
      rfl
  | cons registration registrations ih =>
      obtain ⟨middle, happly, hrest⟩ := Outcome.bind_eq_done_iff.mp hrun
      rw [ih hrest, table_of_apply happly, lastFor, Option.or_assoc]
      split
      · rfl
      · rfl

theorem dispatch_eq (config : TrapConfig) (cpuid : ℕ) (mcause : Word) (kernel : Kernel) :
    dispatch config cpuid mcause kernel =
      entryAt config.nCores (config.size (isInterrupt mcause))
        (kernel.table (isInterrupt mcause)) cpuid (causeOf mcause) := by
  unfold dispatch TrapConfig.size Kernel.table
  cases isInterrupt mcause <;> rfl

theorem table_initial (config : TrapConfig) (mem : ByteSpace) (interrupt : Bool) (cpuid id : ℕ) :
    (Kernel.initial config mem).table interrupt cpuid id =
      if cpuid = 0 ∧ id < config.size interrupt then some (defaultIsr interrupt) else none := by
  cases interrupt <;> rfl

/-- After any registrations a trap finds the handler that is due, the last one registered on
its core for its cause or else the default, exactly when the cause is within the table and
a handler was registered or the core is the first. -/
theorem dispatch_eq_done_iff {registrations : List Registration} {mem : ByteSpace}
    (hrun : registerAll config registrations (.initial config mem) = .done kernel)
    (hcore : cpuid < config.nCores) (mcause : Word) :
    dispatch config cpuid mcause kernel =
        .done ((lastFor (isInterrupt mcause) cpuid (causeOf mcause) registrations).getD
          (defaultIsr (isInterrupt mcause))) ↔
      causeOf mcause < config.size (isInterrupt mcause) ∧
        (cpuid = 0 ∨
          (lastFor (isInterrupt mcause) cpuid (causeOf mcause) registrations).isSome = true) := by
  rw [dispatch_eq, entryAt]
  by_cases hcause : causeOf mcause < config.size (isInterrupt mcause)
  · rw [if_pos ⟨hcore, hcause⟩, table_of_registerAll hrun, table_initial]
    cases hlast : lastFor (isInterrupt mcause) cpuid (causeOf mcause) registrations with
    | some handler => simp [hcause]
    | none =>
        by_cases hzero : cpuid = 0
        · simp [hzero, hcause]
        · simp [hzero]
  · rw [if_neg (fun h => hcause h.2)]
    simp [hcause]

end Dispatch

/-- A second core with one handler of its own. -/
theorem dispatch_second_core :
    dispatch ⟨2, 12, 12⟩ 1 11 ⟨fun _ => 0,
        setEntry (Kernel.initial ⟨2, 12, 12⟩ fun _ => 0).exhandler 1 11 (some .archVcallHandler),
        (Kernel.initial ⟨2, 12, 12⟩ fun _ => 0).irqhandler, fun _ => none⟩ =
      .done .archVcallHandler :=
  (@dispatch_eq_done_iff ⟨2, 12, 12⟩ _ 1 [⟨false, 1, 11, .archVcallHandler⟩] (fun _ => 0) rfl
    (by decide) 11).mpr ⟨by decide, .inr (by decide)⟩

/-- Nothing was registered on the second core, and its row of the table is null. -/
theorem not_dispatch_total :
    ¬ ∀ config registrations mem kernel cpuid mcause,
      registerAll config registrations (.initial config mem) = .done kernel →
        cpuid < config.nCores →
          dispatch config cpuid mcause kernel =
            .done ((lastFor (isInterrupt mcause) cpuid (causeOf mcause) registrations).getD
              (defaultIsr (isInterrupt mcause))) := by
  intro hclaim
  have hcall := hclaim ⟨2, 12, 12⟩ [] (fun _ => 0) _ 1 2 rfl (by decide)
  revert hcall
  decide

/-! ## What a handler is told of its frame -/

/-- A trap that returns has set its frame, run its handler, and cleared the frame. -/
theorem exceptionHandler_bracket {config : TrapConfig} {text : ByteSpace} {cpuid : ℕ}
    {run : Isr → Kernel → Outcome TrapFault Kernel} {mcause frame : Word} {kernel kernel' : Kernel}
    (hreturn : exceptionHandler config text cpuid run mcause frame kernel = .done kernel') :
    ∃ handler body mem, run handler (kernel.setContextFrame cpuid (some frame)) = .done body ∧
      kernel' = { body with mem := mem }.setContextFrame cpuid none := by
  obtain ⟨handler, _, hrest⟩ := Outcome.bind_eq_done_iff.mp hreturn
  obtain ⟨body, hbody, hend⟩ := Outcome.bind_eq_done_iff.mp hrest
  cases hinterrupt : isInterrupt mcause with
  | true =>
      simp only [hinterrupt, if_true] at hend
      cases hend
      exact ⟨handler, body, body.mem, hbody, rfl⟩
  | false =>
      simp only [hinterrupt, Bool.false_eq_true, if_false] at hend
      cases hend
      exact ⟨handler, body, _, hbody, rfl⟩

/-- The kernel, and the frames of the traps that are active on the core, innermost first. -/
structure Nest where
  kernel : Kernel
  active : List Word

/-- What happens on the core. -/
inductive TrapStep
  | /-- A trap with its frame on the stack: the call of `set_context_frame` on entry. -/
    enter (frame : Word)
  | /-- The innermost handler is done: the call of `set_context_frame` on exit. -/
    exit
  | /-- Any other code, here or on other cores. -/
    work (kernel : Kernel)

/-- A step on core `cpuid`.  No other code on it writes the core's entry of `local_frame`. -/
def nestStep (cpuid : ℕ) : TrapStep → Nest → Nest → Prop
  | .enter frame, nest, nest' =>
      nest' = ⟨nest.kernel.setContextFrame cpuid (some frame), frame :: nest.active⟩
  | .exit, nest, nest' =>
      nest.active ≠ [] ∧ nest' = ⟨nest.kernel.setContextFrame cpuid none, nest.active.tail⟩
  | .work kernel, nest, nest' =>
      kernel.localFrame cpuid = nest.kernel.localFrame cpuid ∧ nest' = ⟨kernel, nest.active⟩

/-- Traps on core `cpuid`, from a state in which none is active. -/
def nestSystem (cpuid : ℕ) : TransitionSystem Nest TrapStep where
  init nest := nest.kernel.localFrame cpuid = none ∧ nest.active = []
  step := nestStep cpuid

/-- In a handler body `get_context_frame` gives the frame of the innermost active trap and
`in_isr` is true; with no trap active `in_isr` is false. -/
structure Nest.Told (cpuid : ℕ) (nest : Nest) : Prop where
  inside : ∀ frame outer, nest.active = frame :: outer →
    nest.kernel.getContextFrame cpuid = some frame ∧ nest.kernel.inIsr cpuid = true
  outside : nest.active = [] → nest.kernel.inIsr cpuid = false

/-- No handler returns into the body of another. -/
def TrapStep.Flat (step : TrapStep) (nest : Nest) : Prop :=
  match step with
  | .exit => nest.active.tail = []
  | _ => True

/-- Told right is that the static is the head of the stack. -/
theorem told_iff (cpuid : ℕ) (nest : Nest) :
    nest.Told cpuid ↔ nest.kernel.localFrame cpuid = nest.active.head? := by
  constructor
  · intro htold
    cases hactive : nest.active with
    | nil => simpa [Kernel.inIsr] using htold.outside hactive
    | cons frame outer => exact (htold.inside frame outer hactive).1
  · intro hhead
    constructor
    · intro frame outer hactive
      rw [hactive] at hhead
      exact ⟨hhead, by simp [Kernel.inIsr, hhead]⟩
    · intro hactive
      rw [hactive] at hhead
      simp [Kernel.inIsr, hhead]

/-- While no handler returns into another, every handler is told its own frame. -/
theorem told_of_reachable {cpuid : ℕ} {nest : Nest}
    (hreach : Reachable (nestSystem cpuid) TrapStep.Flat nest) : nest.Told cpuid := by
  rw [told_iff]
  apply hreach.invariant fun nest => nest.kernel.localFrame cpuid = nest.active.head?
  · intro nest hinit
    rw [hinit.1, hinit.2]
    rfl
  · intro step nest nest' htold hflat hstep
    cases step with
    | enter frame =>
        cases hstep
        simp [Kernel.setContextFrame]
    | exit =>
        obtain ⟨_, rfl⟩ := hstep
        rw [show nest.active.tail = [] from hflat]
        simp [Kernel.setContextFrame]
    | work kernel =>
        obtain ⟨hsame, rfl⟩ := hstep
        exact hsame.trans htold

/-- A handler that returns into another leaves it without its frame. -/
theorem not_told_of_exit {cpuid : ℕ} {nest nest' : Nest}
    (hstep : nestStep cpuid .exit nest nest') (hnested : ¬ TrapStep.exit.Flat nest) :
    ¬ nest'.Told cpuid := by
  obtain ⟨_, rfl⟩ := hstep
  rw [told_iff]
  intro htold
  apply hnested
  apply List.head?_eq_none_iff.mp
  simpa [Kernel.setContextFrame] using htold.symm

/-- A kernel on one core, as it starts. -/
def idleKernel : Kernel := .initial ⟨1, 12, 12⟩ fun _ => 0

/-- A trap inside a handler. -/
def nestedTraps : Nest where
  kernel := (idleKernel.setContextFrame 0 (some 0x80003fa0)).setContextFrame 0 (some 0x80003f00)
  active := [0x80003f00, 0x80003fa0]

theorem reachable_nestedTraps {flat : TrapStep → Nest → Prop}
    (hflat : ∀ frame nest, flat (.enter frame) nest) :
    Reachable (nestSystem 0) flat nestedTraps := by
  have hstart : Reachable (nestSystem 0) flat ⟨idleKernel, []⟩ := .start ⟨rfl, rfl⟩
  have houter : nestStep 0 (.enter 0x80003fa0) ⟨idleKernel, []⟩ _ := rfl
  have hinner : nestStep 0 (.enter 0x80003f00)
      ⟨idleKernel.setContextFrame 0 (some 0x80003fa0), [0x80003fa0]⟩ _ := rfl
  exact (hstart.step (hflat _ _) houter).step (hflat _ _) hinner

/-- The inner handler is told its own frame. -/
theorem told_nestedTraps : nestedTraps.Told 0 :=
  told_of_reachable (reachable_nestedTraps fun _ _ => trivial)

/-- Back in the outer handler there is no frame. -/
theorem not_told :
    ¬ ∀ cpuid nest, Reachable (nestSystem cpuid) (fun _ _ => True) nest → nest.Told cpuid := by
  intro hclaim
  have hexit : (nestSystem 0).step .exit nestedTraps
      ⟨nestedTraps.kernel.setContextFrame 0 none, [0x80003fa0]⟩ := ⟨List.cons_ne_nil _ _, rfl⟩
  have hnested : Reachable (nestSystem 0) (fun _ _ => True) nestedTraps :=
    reachable_nestedTraps fun _ _ => trivial
  have htold := (hclaim 0 _ (hnested.step trivial hexit)).inside 0x80003fa0 [] rfl
  exact absurd htold.2 (by decide)

end Cyancore.Riscv
