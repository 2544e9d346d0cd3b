/-
# The HELIOS semaphore

`helios_sem.c` in its dynamic configuration.  As with the mutex, a take that finds the
semaphore empty waits in `helios_task_wait`, during which any other task may run, and is
modelled in two parts.

After the wait the source returns success without decrementing the value.  Units are
conserved in every run in which no take has to wait.
-/

import Cyancore.Helios.Tasks
import Cyancore.Math.Transition

namespace Cyancore.Helios

open Cyancore.Math

/-! ## The functions of the source -/

/-- `helios_sem_t`. -/
structure Sem where
  semVal : ℕ
  semInit : Bool
  deriving DecidableEq, Repr

/-- The scheduler and the semaphores at their addresses. -/
structure SemKernel where
  sched : SchedState
  semAt : Addr → Sem

/-- `helios_sem_create`; `semPtr` is the value of `*sem_ptr`, returned with its update, and
`block` what `helios_malloc` answers. -/
def heliosSemCreate (semPtr : Option Addr) (block : Option Addr) (initVal : ℕ)
    (kernel : SemKernel) : Status × Option Addr × SemKernel :=
  if semPtr ≠ none then (.errorFuncInvalArg, semPtr, kernel)
  else
    match block with
    | none => (.errorMemoryLow, none, kernel)
    | some addr =>
        (.success, some addr,
          { kernel with semAt := Function.update kernel.semAt addr ⟨initVal, true⟩ })

/-- How far a take gets by itself. -/
inductive TakeEntry
  | returned (status : Status) (sem : Sem)
  | mustWait
  deriving DecidableEq, Repr

/-- `helios_sem_take` up to its return or its wait. -/
def semTakeEntry (cfg : HeliosConfig) (waitTicks : ℕ) (sem : Sem) : TakeEntry :=
  if sem.semInit = false then .returned .errorFuncInvalArg sem
  else if sem.semVal = 0 then
    if waitTicks = 0 then .returned .errorOsSemGet sem else .mustWait
  else .returned .success { sem with semVal := cfg.sizePred sem.semVal }

/-- `helios_sem_take` from the end of its wait on. -/
def semTakeExit (sem : Sem) : Status × Sem := (.success, sem)

/-- `helios_sem_take`, when no other task runs during its wait. -/
def heliosSemTake (cfg : HeliosConfig) (fuel : ℕ) (semPtr : Option Addr) (waitTicks : ℕ)
    (kernel : SemKernel) : Run (Status × SemKernel) :=
  match semPtr with
  | none => return (.errorFuncInvalArg, kernel)
  | some addr =>
      let sem := kernel.semAt addr
      match semTakeEntry cfg waitTicks sem with
      | .returned status sem =>
          return (status, { kernel with semAt := Function.update kernel.semAt addr sem })
      | .mustWait => do
          let curr ← deref kernel.sched.currTask
          let sched := kernel.sched.setResource curr addr
          -- the scheduler reads the first word of the semaphore, which is zero
          let sched := { sched with resource := Function.update sched.resource addr 0 }
          let sched ← heliosTaskWait cfg fuel waitTicks sched
          let (status, sem) := semTakeExit sem
          return (status, ⟨sched, Function.update kernel.semAt addr sem⟩)

/-- `helios_sem_give` on a semaphore. -/
def semGive (cfg : HeliosConfig) (sem : Sem) : Status × Sem :=
  if sem.semInit = false then (.errorFuncInvalArg, sem)
  else (.success, { sem with semVal := cfg.sizeSucc sem.semVal })

/-- `helios_sem_give`. -/
def heliosSemGive (cfg : HeliosConfig) (semPtr : Option Addr) (kernel : SemKernel) :
    Status × SemKernel :=
  match semPtr with
  | none => (.errorFuncInvalArg, kernel)
  | some addr =>
      let (status, sem) := semGive cfg (kernel.semAt addr)
      (status, { kernel with semAt := Function.update kernel.semAt addr sem })

/-- A take that waits returns what its second part does to the semaphore. -/
theorem heliosSemTake_of_mustWait {cfg : HeliosConfig} {fuel waitTicks : ℕ} {addr : Addr}
    {kernel kernel' : SemKernel} {status : Status}
    (hentry : semTakeEntry cfg waitTicks (kernel.semAt addr) = .mustWait)
    (hrun : heliosSemTake cfg fuel (some addr) waitTicks kernel = .done (status, kernel')) :
    (status, kernel'.semAt addr) = semTakeExit (kernel.semAt addr) := by
  simp only [heliosSemTake, hentry] at hrun
  obtain ⟨curr, -, hrun⟩ := Outcome.bind_eq_done_iff.mp hrun
  obtain ⟨sched, -, hrun⟩ := Outcome.bind_eq_done_iff.mp hrun
  simp only [semTakeExit, Outcome.pure_eq, Outcome.done.injEq, Prod.mk.injEq] at hrun
  obtain ⟨rfl, rfl⟩ := hrun
  simp [semTakeExit]

/-! ## Interleaved calls -/

/-- One semaphore among its callers. -/
structure SemWorld where
  sem : Sem
  /-- The value the semaphore was created with. -/
  initial : ℕ
  /-- The tasks that are inside `helios_task_wait`, called from `helios_sem_take`. -/
  waiting : Addr → Bool
  /-- How many takes have returned success. -/
  takes : ℕ
  /-- How many gives have returned success. -/
  gives : ℕ

/-- What a task may do next. -/
inductive SemOp
  | /-- Call `helios_sem_take`. -/
    take (task : Addr) (waitTicks : ℕ)
  | /-- Come back from `helios_task_wait`. -/
    resume (task : Addr)
  | /-- Call `helios_sem_give`. -/
    give (task : Addr)
  deriving DecidableEq, Repr

namespace SemWorld

/-- A take of the task has returned. -/
def takeReturned (world : SemWorld) (task : Addr) (status : Status) (sem : Sem) : SemWorld :=
  { world with
    sem := sem
    waiting := Function.update world.waiting task false
    takes := if status = .success then world.takes + 1 else world.takes }

/-- A take of the task has gone to wait. -/
def takeWaits (world : SemWorld) (task : Addr) : SemWorld :=
  { world with waiting := Function.update world.waiting task true }

/-- A give has returned. -/
def giveReturned (world : SemWorld) (status : Status) (sem : Sem) : SemWorld :=
  { world with
    sem := sem
    gives := if status = .success then world.gives + 1 else world.gives }

end SemWorld

/-- One step of one task. -/
inductive SemStep (cfg : HeliosConfig) : SemOp → SemWorld → SemWorld → Prop
  | take {world : SemWorld} {task : Addr} {waitTicks : ℕ} {status : Status} {sem : Sem}
      (hawake : world.waiting task = false)
      (hentry : semTakeEntry cfg waitTicks world.sem = .returned status sem) :
      SemStep cfg (.take task waitTicks) world (world.takeReturned task status sem)
  | wait {world : SemWorld} {task : Addr} {waitTicks : ℕ}
      (hawake : world.waiting task = false)
      (hentry : semTakeEntry cfg waitTicks world.sem = .mustWait) :
      SemStep cfg (.take task waitTicks) world (world.takeWaits task)
  | resume {world : SemWorld} {task : Addr} (hwaiting : world.waiting task = true) :
      SemStep cfg (.resume task) world
        (world.takeReturned task (semTakeExit world.sem).1 (semTakeExit world.sem).2)
  | give {world : SemWorld} {task : Addr} (hawake : world.waiting task = false) :
      SemStep cfg (.give task) world
        (world.giveReturned (semGive cfg world.sem).1 (semGive cfg world.sem).2)

/-- Calls on a semaphore that has just been created with any value. -/
def semSystem (cfg : HeliosConfig) : TransitionSystem SemWorld SemOp where
  init world := ∃ initVal, initVal < cfg.sizeMod ∧
    world = ⟨⟨initVal, true⟩, initVal, fun _ => false, 0, 0⟩
  step := SemStep cfg

/-! ## The calls of the source as steps -/

section Steps

variable {cfg : HeliosConfig} {fuel waitTicks initVal : ℕ} {addr task : Addr}
  {kernel kernel' : SemKernel} {world : SemWorld} {status : Status}

/-- The system starts with a semaphore that has been created. -/
theorem semSystem_init_of_create {block semPtr semPtr' : Option Addr}
    (hinit : initVal < cfg.sizeMod)
    (hrun : heliosSemCreate semPtr block initVal kernel = (.success, semPtr', kernel')) :
    ∃ addr, block = some addr ∧ semPtr' = some addr ∧
      (semSystem cfg).init ⟨kernel'.semAt addr, initVal, fun _ => false, 0, 0⟩ := by
  by_cases hptr : semPtr ≠ none
  · simp only [heliosSemCreate, if_pos hptr] at hrun
    cases congrArg Prod.fst hrun
  · cases block with
    | none =>
        simp only [heliosSemCreate, if_neg hptr] at hrun
        cases congrArg Prod.fst hrun
    | some addr =>
        simp only [heliosSemCreate, if_neg hptr] at hrun
        cases hrun
        exact ⟨addr, rfl, rfl, initVal, hinit, by simp⟩

/-- A take of the current task is a step, or one before its wait and one after it. -/
theorem semStep_of_heliosSemTake (task : Addr) (hawake : world.waiting task = false)
    (hsem : kernel.semAt addr = world.sem)
    (hrun : heliosSemTake cfg fuel (some addr) waitTicks kernel = .done (status, kernel')) :
    SemStep cfg (.take task waitTicks) world
        (world.takeReturned task status (kernel'.semAt addr)) ∨
      (SemStep cfg (.take task waitTicks) world (world.takeWaits task) ∧
        SemStep cfg (.resume task) (world.takeWaits task)
          ((world.takeWaits task).takeReturned task status (kernel'.semAt addr))) := by
  cases hentry : semTakeEntry cfg waitTicks (kernel.semAt addr) with
  | returned result sem =>
      simp only [heliosSemTake, hentry] at hrun
      cases hrun
      rw [hsem] at hentry
      dsimp only
      rw [Function.update_self]
      exact .inl (.take hawake hentry)
  | mustWait =>
      have hexit := heliosSemTake_of_mustWait hentry hrun
      rw [hsem, Prod.ext_iff] at hexit
      rw [hsem] at hentry
      obtain rfl : status = (semTakeExit world.sem).1 := hexit.1
      have hsem' : kernel'.semAt addr = (semTakeExit world.sem).2 := hexit.2
      rw [hsem']
      exact .inr ⟨.wait hawake hentry, .resume (Function.update_self _ _ _)⟩

/-- A give is a step. -/
theorem semStep_of_heliosSemGive (task : Addr) (hawake : world.waiting task = false)
    (hsem : kernel.semAt addr = world.sem)
    (hrun : heliosSemGive cfg (some addr) kernel = (status, kernel')) :
    SemStep cfg (.give task) world (world.giveReturned status (kernel'.semAt addr)) := by
  obtain ⟨hstatus, hkernel⟩ := Prod.mk.inj hrun
  have hstored : kernel'.semAt addr = (semGive cfg world.sem).2 := by
    rw [← hkernel, ← hsem]
    exact Function.update_self _ _ _
  rw [hstored, ← hstatus, hsem]
  exact .give hawake

end Steps

/-- The value accounts for every successful take and give. -/
def SemConserves (world : SemWorld) : Prop :=
  world.sem.semVal + world.takes = world.initial + world.gives ∧
    world.takes ≤ world.initial + world.gives

/-- A give does not wrap the value. -/
def GiveFits (cfg : HeliosConfig) (op : SemOp) (world : SemWorld) : Prop :=
  match op with
  | .give _ => world.sem.semVal + 1 < cfg.sizeMod
  | _ => True

/-- Besides, no take has to wait. -/
def TakesAtOnce (cfg : HeliosConfig) (op : SemOp) (world : SemWorld) : Prop :=
  GiveFits cfg op world ∧
    match op with
    | .take _ waitTicks => ¬ (0 < waitTicks ∧ world.sem.semVal = 0)
    | _ => True

/-! ## Runs in which no task waits -/

/-- The invariant of these runs. -/
structure SemInv (cfg : HeliosConfig) (world : SemWorld) : Prop where
  init : world.sem.semInit = true
  bound : world.sem.semVal < cfg.sizeMod
  awake : ∀ task, world.waiting task = false
  conserves : world.sem.semVal + world.takes = world.initial + world.gives

theorem HeliosConfig.sizePred_of_pos (cfg : HeliosConfig) {value : ℕ} (hpos : 0 < value)
    (hlt : value < cfg.sizeMod) : cfg.sizePred value = value - 1 := by
  have hle : 1 ≤ cfg.sizeMod := Nat.one_le_two_pow
  have hsplit : value + cfg.delayMax = (value - 1) + cfg.sizeMod := by
    rw [delayMax]
    omega
  rw [sizePred, hsplit, Nat.add_mod_right, Nat.mod_eq_of_lt (by omega)]

/-- A take that returns at once takes a unit or fails. -/
theorem semTakeEntry_cases {cfg : HeliosConfig} {waitTicks : ℕ} {sem sem' : Sem} {status : Status}
    (hinit : sem.semInit = true) (hbound : sem.semVal < cfg.sizeMod)
    (hentry : semTakeEntry cfg waitTicks sem = .returned status sem') :
    (status = .success ∧ sem'.semInit = true ∧ sem'.semVal + 1 = sem.semVal) ∨
      (status = .errorOsSemGet ∧ sem' = sem) := by
  rw [semTakeEntry, if_neg (by simp [hinit])] at hentry
  by_cases hempty : sem.semVal = 0
  · rw [if_pos hempty] at hentry
    by_cases hticks : waitTicks = 0
    · rw [if_pos hticks] at hentry
      cases hentry
      exact .inr ⟨rfl, rfl⟩
    · rw [if_neg hticks] at hentry
      cases hentry
  · rw [if_neg hempty] at hentry
    cases hentry
    have hpos := Nat.pos_of_ne_zero hempty
    refine .inl ⟨rfl, hinit, ?_⟩
    show cfg.sizePred sem.semVal + 1 = sem.semVal
    rw [cfg.sizePred_of_pos hpos hbound]
    omega

theorem SemInv.step {cfg : HeliosConfig} {op : SemOp} {world world' : SemWorld}
    (hinv : SemInv cfg world) (hguard : TakesAtOnce cfg op world)
    (hstep : SemStep cfg op world world') : SemInv cfg world' := by
  have hconserves := hinv.conserves
  have hbound := hinv.bound
  cases hstep with
  | @take _ task _ status sem hawake hentry =>
      have hawake' : ∀ other, Function.update world.waiting task false other = false := by
        have hsame : Function.update world.waiting task false = world.waiting := by
          rw [← hawake, Function.update_eq_self]
        rw [hsame]
        exact hinv.awake
      rcases semTakeEntry_cases hinv.init hbound hentry with ⟨rfl, hinit, hvalue⟩ | ⟨rfl, rfl⟩
      · refine ⟨hinit, ?_, hawake', ?_⟩
        · simp only [SemWorld.takeReturned]
          omega
        · simp only [SemWorld.takeReturned, if_true]
          omega
      · exact ⟨hinv.init, hbound, hawake', hconserves⟩
  | wait hawake hentry =>
      obtain ⟨-, hguard⟩ := hguard
      rw [semTakeEntry, if_neg (by simp [hinv.init])] at hentry
      split at hentry
      · next hempty =>
          split at hentry
          · cases hentry
          · next hticks => exact absurd ⟨Nat.pos_of_ne_zero hticks, hempty⟩ hguard
      · cases hentry
  | resume hwaiting => simp [hinv.awake] at hwaiting
  | give hawake =>
      obtain ⟨hfits, -⟩ := hguard
      have hfits' : world.sem.semVal + 1 < cfg.sizeMod := hfits
      have hgive : semGive cfg world.sem =
          (.success, { world.sem with semVal := world.sem.semVal + 1 }) := by
        rw [semGive, if_neg (by simp [hinv.init]), HeliosConfig.sizeSucc,
          Nat.mod_eq_of_lt hfits']
      rw [hgive]
      refine ⟨hinv.init, hfits', hinv.awake, ?_⟩
      simp only [SemWorld.giveReturned, if_true]
      omega

/-- In every run in which no take has to wait and no give wraps the value, the value is what
was put in less what was taken. -/
theorem semConserves_of_reachable {cfg : HeliosConfig} {world : SemWorld}
    (hreach : (semSystem cfg).Reachable (TakesAtOnce cfg) world) : SemConserves world := by
  have hinv : SemInv cfg world := by
    apply hreach.invariant (SemInv cfg)
    · rintro start ⟨initVal, hlt, rfl⟩
      exact ⟨rfl, hlt, fun _ => rfl, rfl⟩
    · exact fun op before after hbefore hguard hstep => hbefore.step hguard hstep
  have hconserves := hinv.conserves
  exact ⟨hconserves, by omega⟩

/-- A semaphore created with the given value. -/
def newSem (initVal : ℕ) : SemWorld := ⟨⟨initVal, true⟩, initVal, fun _ => false, 0, 0⟩

theorem semConserves_taken_given :
    ∃ world, (semSystem (defaultConfig true)).Reachable (TakesAtOnce (defaultConfig true)) world ∧
      world.takes = 1 ∧ world.gives = 1 ∧ SemConserves world := by
  have hreach : (semSystem (defaultConfig true)).Reachable (TakesAtOnce (defaultConfig true)) _ :=
    .step
      (.step (.start (show (semSystem _).init (newSem 1) from ⟨1, by decide, rfl⟩))
        (show TakesAtOnce _ (.take 1 5) _ from ⟨trivial, by simp [newSem]⟩)
        (SemStep.take rfl rfl))
      (show TakesAtOnce _ (.give 2) _ from ⟨show (_ : ℕ) < _ by decide, trivial⟩)
      (SemStep.give rfl)
  exact ⟨_, hreach, rfl, rfl, semConserves_of_reachable hreach⟩

/-- A take from an empty semaphore waits, and succeeds when the wait ends. -/
theorem exists_reachable_not_semConserves :
    ∃ world, (semSystem (defaultConfig true)).Reachable (GiveFits (defaultConfig true)) world ∧
      ¬ SemConserves world := by
  have hreach : (semSystem (defaultConfig true)).Reachable (GiveFits (defaultConfig true)) _ :=
    .step
      (.step (.start (show (semSystem _).init (newSem 0) from ⟨0, by decide, rfl⟩))
        (show GiveFits _ (.take 1 5) _ from trivial) (.wait rfl rfl))
      (show GiveFits _ (.resume 1) _ from trivial) (show SemStep _ (.resume 1) _ _ from .resume rfl)
  exact ⟨_, hreach, fun hconserves => absurd hconserves.1 (by decide)⟩

end Cyancore.Helios
