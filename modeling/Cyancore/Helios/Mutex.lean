/-
# The HELIOS mutex

`helios_mutex.c` in its dynamic configuration.  A lock call that finds the mutex with
another task waits in `helios_task_wait`, during which any other task may run; the
call is therefore modelled in two parts, up to the wait and after it, and the runs of
the system interleave the parts of the tasks' calls.

After the wait the source returns success without looking at the mutex again.  The
mutex excludes in every run in which no task has to wait for it.
-/

import Cyancore.Helios.Tasks
import Cyancore.Math.Transition

namespace Cyancore.Helios

open Cyancore.Math

/-! ## The functions of the source -/

/-- `MUTEX_INIT_VAL`. -/
def mutexInitVal : ℤ := 1

/-- `helios_mutex_t`. -/
structure Mutex where
  mutexVal : ℤ
  mutexInit : Bool
  lockTask : Option Addr
  deriving DecidableEq, Repr

/-- What `helios_mutex_create` makes of the memory it obtained; `lock_task` is left as
it was found. -/
def initMutex (contents : Mutex) : Mutex :=
  { contents with mutexVal := mutexInitVal, mutexInit := true }

/-- The scheduler and the mutexes at their addresses. -/
structure MutexKernel where
  sched : SchedState
  mutexAt : Addr → Mutex

/-- `helios_mutex_create`; `mutexPtr` is the value of `*mutex_ptr`, returned with its
update, and `block` and `contents` what `helios_malloc` answers. -/
def heliosMutexCreate (mutexPtr : Option Addr) (block : Option Addr) (contents : Mutex)
    (kernel : MutexKernel) : Status × Option Addr × MutexKernel :=
  if mutexPtr ≠ none then (.errorFuncInvalArg, mutexPtr, kernel)
  else
    match block with
    | none => (.errorMemoryLow, none, kernel)
    | some addr =>
        (.success, some addr,
          { kernel with mutexAt := Function.update kernel.mutexAt addr (initMutex contents) })

/-- How far a lock call gets by itself. -/
inductive LockEntry
  | returned (status : Status) (mutex : Mutex)
  | mustWait
  deriving DecidableEq, Repr

/-- `lock_flag`: make the current task the owner, once more if it already is. -/
def takeMutex (cfg : HeliosConfig) (curr : Option Addr) (mutex : Mutex) : Run LockEntry := do
  let value ← cfg.intPred mutex.mutexVal
  return .returned .success { mutex with lockTask := curr, mutexVal := value }

/-- `helios_mutex_lock` up to its return or its wait. -/
def mutexLockEntry (cfg : HeliosConfig) (waitTicks : ℕ) (curr : Option Addr) (mutex : Mutex) :
    Run LockEntry :=
  if mutex.mutexInit = false then return .returned .errorFuncInvalArg mutex
  else if mutex.mutexVal ≠ mutexInitVal ∧ mutex.lockTask ≠ none then
    if waitTicks = 0 then return .returned .errorOsMutexLock mutex
    else if mutex.lockTask ≠ curr then return .mustWait
    else takeMutex cfg curr mutex
  else takeMutex cfg curr mutex

/-- `helios_mutex_lock` from the end of its wait on: `lock_flag` is still false. -/
def mutexLockExit (mutex : Mutex) : Status × Mutex := (.success, mutex)

/-- `helios_mutex_lock`, when no other task runs during its wait. -/
def heliosMutexLock (cfg : HeliosConfig) (fuel : ℕ) (mutexPtr : Option Addr) (waitTicks : ℕ)
    (kernel : MutexKernel) : Run (Status × MutexKernel) :=
  match mutexPtr with
  | none => return (.errorFuncInvalArg, kernel)
  | some addr => do
      let mutex := kernel.mutexAt addr
      match ← mutexLockEntry cfg waitTicks kernel.sched.currTask mutex with
      | .returned status mutex =>
          return (status, { kernel with mutexAt := Function.update kernel.mutexAt addr mutex })
      | .mustWait =>
          let curr ← deref kernel.sched.currTask
          let sched := kernel.sched.setResource curr addr
          -- the scheduler reads the first word of the mutex
          let sched := { sched with resource := Function.update sched.resource addr mutex.mutexVal }
          let sched ← heliosTaskWait cfg fuel waitTicks sched
          let (status, mutex) := mutexLockExit mutex
          return (status, ⟨sched, Function.update kernel.mutexAt addr mutex⟩)

/-- `helios_mutex_unlock` on a mutex. -/
def mutexUnlock (cfg : HeliosConfig) (curr : Option Addr) (mutex : Mutex) :
    Run (Status × Mutex) :=
  if mutex.mutexInit = false then return (.errorFuncInvalArg, mutex)
  else if mutex.lockTask ≠ curr then return (.errorOsMutexUnlock, mutex)
  else do
    let value ← cfg.intSucc mutex.mutexVal
    let mutex := { mutex with mutexVal := value }
    if mutex.mutexVal = mutexInitVal then return (.success, { mutex with lockTask := none })
    else return (.success, mutex)

/-- `helios_mutex_unlock`. -/
def heliosMutexUnlock (cfg : HeliosConfig) (mutexPtr : Option Addr) (kernel : MutexKernel) :
    Run (Status × MutexKernel) :=
  match mutexPtr with
  | none => return (.errorFuncInvalArg, kernel)
  | some addr => do
      let (status, mutex) ← mutexUnlock cfg kernel.sched.currTask (kernel.mutexAt addr)
      return (status, { kernel with mutexAt := Function.update kernel.mutexAt addr mutex })

/-- A lock call that waits returns what its second part does to the mutex. -/
theorem heliosMutexLock_of_mustWait {cfg : HeliosConfig} {fuel waitTicks : ℕ} {addr : Addr}
    {kernel kernel' : MutexKernel} {status : Status}
    (hentry : mutexLockEntry cfg waitTicks kernel.sched.currTask (kernel.mutexAt addr) =
      .done .mustWait)
    (hrun : heliosMutexLock cfg fuel (some addr) waitTicks kernel = .done (status, kernel')) :
    (status, kernel'.mutexAt addr) = mutexLockExit (kernel.mutexAt addr) := by
  simp only [heliosMutexLock, hentry, Outcome.done_bind] at hrun
  obtain ⟨curr, -, hrun⟩ := Outcome.bind_eq_done_iff.mp hrun
  obtain ⟨sched, -, hrun⟩ := Outcome.bind_eq_done_iff.mp hrun
  simp only [mutexLockExit, Outcome.pure_eq, Outcome.done.injEq, Prod.mk.injEq] at hrun
  obtain ⟨rfl, rfl⟩ := hrun
  simp [mutexLockExit]

/-! ## Interleaved calls -/

/-- One mutex among its callers. -/
structure MutexWorld where
  mutex : Mutex
  /-- The tasks that are inside `helios_task_wait`, called from `helios_mutex_lock`. -/
  waiting : Addr → Bool
  /-- How many successful locks of each task are not yet matched by an unlock. -/
  depth : Addr → ℕ
  /-- The task to which a lock call has returned success in the last step. -/
  justLocked : Option Addr

/-- What a task may do next. -/
inductive MutexOp
  | /-- Call `helios_mutex_lock`. -/
    lock (task : Addr) (waitTicks : ℕ)
  | /-- Come back from `helios_task_wait`. -/
    resume (task : Addr)
  | /-- Call `helios_mutex_unlock`. -/
    unlock (task : Addr)
  deriving DecidableEq, Repr

namespace MutexWorld

/-- A lock call of the task has returned. -/
def lockReturned (world : MutexWorld) (task : Addr) (status : Status) (mutex : Mutex) :
    MutexWorld where
  mutex := mutex
  waiting := Function.update world.waiting task false
  depth :=
    if status = .success then Function.update world.depth task (world.depth task + 1)
    else world.depth
  justLocked := if status = .success then some task else none

theorem waiting_lockReturned {world : MutexWorld} {task : Addr}
    (hawake : world.waiting task = false) (status : Status) (mutex : Mutex) :
    (world.lockReturned task status mutex).waiting = world.waiting := by
  rw [lockReturned, ← hawake, Function.update_eq_self]

/-- A lock call of the task has gone to wait. -/
def lockWaits (world : MutexWorld) (task : Addr) : MutexWorld :=
  { world with waiting := Function.update world.waiting task true, justLocked := none }

/-- An unlock call of the task has returned. -/
def unlockReturned (world : MutexWorld) (task : Addr) (status : Status) (mutex : Mutex) :
    MutexWorld :=
  { world with
    mutex := mutex
    depth :=
      if status = .success then Function.update world.depth task (world.depth task - 1)
      else world.depth
    justLocked := none }

end MutexWorld

/-- One step of one task. -/
inductive MutexStep (cfg : HeliosConfig) : MutexOp → MutexWorld → MutexWorld → Prop
  | lock {world : MutexWorld} {task : Addr} {waitTicks : ℕ} {status : Status} {mutex : Mutex}
      (hawake : world.waiting task = false)
      (hentry : mutexLockEntry cfg waitTicks (some task) world.mutex =
        .done (.returned status mutex)) :
      MutexStep cfg (.lock task waitTicks) world (world.lockReturned task status mutex)
  | wait {world : MutexWorld} {task : Addr} {waitTicks : ℕ}
      (hawake : world.waiting task = false)
      (hentry : mutexLockEntry cfg waitTicks (some task) world.mutex = .done .mustWait) :
      MutexStep cfg (.lock task waitTicks) world (world.lockWaits task)
  | resume {world : MutexWorld} {task : Addr} (hwaiting : world.waiting task = true) :
      MutexStep cfg (.resume task) world
        (world.lockReturned task (mutexLockExit world.mutex).1 (mutexLockExit world.mutex).2)
  | unlock {world : MutexWorld} {task : Addr} {status : Status} {mutex : Mutex}
      (hawake : world.waiting task = false)
      (hunlock : mutexUnlock cfg (some task) world.mutex = .done (status, mutex)) :
      MutexStep cfg (.unlock task) world (world.unlockReturned task status mutex)

/-- Calls on a mutex that has just been created, in any memory. -/
def mutexSystem (cfg : HeliosConfig) : TransitionSystem MutexWorld MutexOp where
  init world := ∃ contents,
    world = ⟨initMutex contents, fun _ => false, fun _ => 0, none⟩
  step := MutexStep cfg

/-! ## The calls of the source as steps -/

section Steps

variable {cfg : HeliosConfig} {fuel waitTicks : ℕ} {addr task : Addr} {kernel kernel' : MutexKernel}
  {world : MutexWorld} {status : Status}

/-- The system starts with a mutex that has been created. -/
theorem mutexSystem_init_of_create {block mutexPtr mutexPtr' : Option Addr} {contents : Mutex}
    (hrun : heliosMutexCreate mutexPtr block contents kernel = (.success, mutexPtr', kernel')) :
    ∃ addr, block = some addr ∧ mutexPtr' = some addr ∧
      (mutexSystem cfg).init ⟨kernel'.mutexAt addr, fun _ => false, fun _ => 0, none⟩ := by
  by_cases hptr : mutexPtr ≠ none
  · simp only [heliosMutexCreate, if_pos hptr] at hrun
    cases congrArg Prod.fst hrun
  · cases block with
    | none =>
        simp only [heliosMutexCreate, if_neg hptr] at hrun
        cases congrArg Prod.fst hrun
    | some addr =>
        simp only [heliosMutexCreate, if_neg hptr] at hrun
        cases hrun
        exact ⟨addr, rfl, rfl, contents, by simp⟩

/-- A lock call of the current task is a step, or one before its wait and one after it. -/
theorem mutexStep_of_heliosMutexLock (hcurr : kernel.sched.currTask = some task)
    (hawake : world.waiting task = false) (hmutex : kernel.mutexAt addr = world.mutex)
    (hrun : heliosMutexLock cfg fuel (some addr) waitTicks kernel = .done (status, kernel')) :
    MutexStep cfg (.lock task waitTicks) world
        (world.lockReturned task status (kernel'.mutexAt addr)) ∨
      (MutexStep cfg (.lock task waitTicks) world (world.lockWaits task) ∧
        MutexStep cfg (.resume task) (world.lockWaits task)
          ((world.lockWaits task).lockReturned task status (kernel'.mutexAt addr))) := by
  obtain ⟨entry, hentry, hrest⟩ := Outcome.bind_eq_done_iff.mp hrun
  cases entry with
  | returned result mutex =>
      cases hrest
      rw [hcurr, hmutex] at hentry
      dsimp only
      rw [Function.update_self]
      exact .inl (.lock hawake hentry)
  | mustWait =>
      have hexit := heliosMutexLock_of_mustWait hentry hrun
      rw [hmutex, Prod.ext_iff] at hexit
      rw [hcurr, hmutex] at hentry
      obtain rfl : status = (mutexLockExit world.mutex).1 := hexit.1
      have hmutex' : kernel'.mutexAt addr = (mutexLockExit world.mutex).2 := hexit.2
      rw [hmutex']
      exact .inr ⟨.wait hawake hentry, .resume (Function.update_self _ _ _)⟩

/-- An unlock call of the current task is a step. -/
theorem mutexStep_of_heliosMutexUnlock (hcurr : kernel.sched.currTask = some task)
    (hawake : world.waiting task = false) (hmutex : kernel.mutexAt addr = world.mutex)
    (hrun : heliosMutexUnlock cfg (some addr) kernel = .done (status, kernel')) :
    MutexStep cfg (.unlock task) world
      (world.unlockReturned task status (kernel'.mutexAt addr)) := by
  obtain ⟨⟨result, mutex⟩, hunlock, hrest⟩ := Outcome.bind_eq_done_iff.mp hrun
  cases hrest
  rw [hcurr, hmutex] at hunlock
  dsimp only
  rw [Function.update_self]
  exact .unlock hawake hunlock

end Steps

/-- A lock that has just succeeded has made its caller the owner, and at most one task has
locked the mutex without having unlocked it. -/
structure MutexExcludes (world : MutexWorld) : Prop where
  owner : ∀ task, world.justLocked = some task → world.mutex.lockTask = some task
  single : ∀ first second, 0 < world.depth first → 0 < world.depth second → first = second

/-- No lock call has to wait, and `lock_task` is not trusted while the mutex is free. -/
def NeverWaits (op : MutexOp) (world : MutexWorld) : Prop :=
  match op with
  | .lock task waitTicks =>
      ¬ (0 < waitTicks ∧ world.mutex.mutexVal ≠ mutexInitVal ∧ world.mutex.lockTask ≠ none ∧
        world.mutex.lockTask ≠ some task)
  | .resume _ => True
  | .unlock task =>
      ¬ (world.mutex.mutexVal = mutexInitVal ∧ world.mutex.lockTask = some task)

/-! ## What one call can do -/

section Calls

variable {cfg : HeliosConfig} {mutex : Mutex} {curr : Option Addr}

theorem takeMutex_cases {entry : LockEntry} (hrun : takeMutex cfg curr mutex = .done entry) :
    entry = .returned .success
      { mutex with lockTask := curr, mutexVal := mutex.mutexVal - 1 } := by
  obtain ⟨value, hvalue, hrun⟩ := Outcome.bind_eq_done_iff.mp hrun
  rw [Outcome.pure_eq, Outcome.done.injEq] at hrun
  subst hrun
  rw [HeliosConfig.intPred] at hvalue
  split at hvalue
  · simp at hvalue
  · rw [Outcome.pure_eq, Outcome.done.injEq] at hvalue
    rw [hvalue]

/-- A lock call takes the mutex, fails at once, or goes to wait. -/
theorem mutexLockEntry_cases {waitTicks : ℕ} {entry : LockEntry}
    (hinit : mutex.mutexInit = true)
    (hrun : mutexLockEntry cfg waitTicks curr mutex = .done entry) :
    (entry = .returned .success
        { mutex with lockTask := curr, mutexVal := mutex.mutexVal - 1 } ∧
      (mutex.mutexVal = mutexInitVal ∨ mutex.lockTask = none ∨ mutex.lockTask = curr)) ∨
    entry = .returned .errorOsMutexLock mutex ∨
    (entry = .mustWait ∧ 0 < waitTicks ∧ mutex.mutexVal ≠ mutexInitVal ∧
      mutex.lockTask ≠ none ∧ mutex.lockTask ≠ curr) := by
  rw [mutexLockEntry, if_neg (by simp [hinit])] at hrun
  by_cases htaken : mutex.mutexVal ≠ mutexInitVal ∧ mutex.lockTask ≠ none
  · rw [if_pos htaken] at hrun
    by_cases hticks : waitTicks = 0
    · rw [if_pos hticks, Outcome.pure_eq, Outcome.done.injEq] at hrun
      exact .inr (.inl hrun.symm)
    by_cases howner : mutex.lockTask ≠ curr
    · rw [if_neg hticks, if_pos howner, Outcome.pure_eq, Outcome.done.injEq] at hrun
      exact .inr (.inr ⟨hrun.symm, Nat.pos_of_ne_zero hticks, htaken.1, htaken.2, howner⟩)
    · rw [if_neg hticks, if_neg howner] at hrun
      exact .inl ⟨takeMutex_cases hrun, .inr (.inr (not_not.mp howner))⟩
  · rw [if_neg htaken] at hrun
    refine .inl ⟨takeMutex_cases hrun, ?_⟩
    by_cases hvalue : mutex.mutexVal = mutexInitVal
    · exact .inl hvalue
    · exact .inr (.inl (not_not.mp fun h => htaken ⟨hvalue, h⟩))

/-- An unlock call fails for all but the owner, and gives one lock back for it. -/
theorem mutexUnlock_cases {status : Status} {mutex' : Mutex} (hinit : mutex.mutexInit = true)
    (hrun : mutexUnlock cfg curr mutex = .done (status, mutex')) :
    (status = .errorOsMutexUnlock ∧ mutex' = mutex ∧ mutex.lockTask ≠ curr) ∨
    (status = .success ∧ mutex.lockTask = curr ∧ mutex'.mutexInit = true ∧
      mutex'.mutexVal = mutex.mutexVal + 1 ∧
      mutex'.lockTask = if mutex.mutexVal + 1 = mutexInitVal then none else curr) := by
  rw [mutexUnlock, if_neg (by simp [hinit])] at hrun
  by_cases howner : mutex.lockTask ≠ curr
  · rw [if_pos howner, Outcome.pure_eq, Outcome.done.injEq, Prod.mk.injEq] at hrun
    exact .inl ⟨hrun.1.symm, hrun.2.symm, howner⟩
  · rw [if_neg howner] at hrun
    rw [not_not] at howner
    obtain ⟨value, hvalue, hrun⟩ := Outcome.bind_eq_done_iff.mp hrun
    have hsucc : value = mutex.mutexVal + 1 := by
      rw [HeliosConfig.intSucc] at hvalue
      split at hvalue
      · simp at hvalue
      · exact (Outcome.done.inj hvalue).symm
    subst hsucc
    refine .inr ?_
    by_cases hfree : mutex.mutexVal + 1 = mutexInitVal
    · rw [if_pos hfree, Outcome.pure_eq, Outcome.done.injEq, Prod.mk.injEq] at hrun
      obtain ⟨rfl, rfl⟩ := hrun
      exact ⟨rfl, howner, hinit, rfl, by rw [if_pos hfree]⟩
    · rw [if_neg hfree, Outcome.pure_eq, Outcome.done.injEq, Prod.mk.injEq] at hrun
      obtain ⟨rfl, rfl⟩ := hrun
      exact ⟨rfl, howner, hinit, rfl, by rw [if_neg hfree, howner]⟩

end Calls

/-! ## Runs in which no task waits -/

/-- The task owns the mutex, with as many locks as its value says, and no other task holds
a lock. -/
structure Owns (world : MutexWorld) (task : Addr) : Prop where
  lockTask : world.mutex.lockTask = some task
  pos : 0 < world.depth task
  value : world.mutex.mutexVal = mutexInitVal - world.depth task
  others : ∀ other, other ≠ task → world.depth other = 0

/-- The invariant of these runs: the mutex is free, or one task owns it. -/
structure MutexInv (world : MutexWorld) : Prop where
  init : world.mutex.mutexInit = true
  awake : ∀ task, world.waiting task = false
  owner : ∀ task, world.justLocked = some task → world.mutex.lockTask = some task
  free_or_owned : (world.mutex.mutexVal = mutexInitVal ∧ ∀ task, world.depth task = 0) ∨
    ∃ task, Owns world task

theorem MutexInv.excludes {world : MutexWorld} (hinv : MutexInv world) : MutexExcludes world := by
  refine ⟨hinv.owner, fun first second hfirst hsecond => ?_⟩
  rcases hinv.free_or_owned with ⟨-, hfree⟩ | ⟨owner, howns⟩
  · simp [hfree first] at hfirst
  · have hfirst' : first = owner := by
      by_contra h
      simp [howns.others first h] at hfirst
    have hsecond' : second = owner := by
      by_contra h
      simp [howns.others second h] at hsecond
    rw [hfirst', hsecond']

/-- A lock call that takes the mutex leaves its caller the owner. -/
theorem MutexInv.lock {world : MutexWorld} (hinv : MutexInv world) {task : Addr}
    (hmay : world.mutex.mutexVal = mutexInitVal ∨ world.mutex.lockTask = none ∨
      world.mutex.lockTask = some task) :
    MutexInv (world.lockReturned task .success
      { world.mutex with lockTask := some task, mutexVal := world.mutex.mutexVal - 1 }) := by
  refine ⟨hinv.init, fun other => ?_, fun other h => ?_, .inr ⟨task, ?_⟩⟩
  · by_cases hother : other = task
    · simp [MutexWorld.lockReturned, hother]
    · simp [MutexWorld.lockReturned, hother, hinv.awake other]
  · simpa [MutexWorld.lockReturned] using h
  · -- the caller is the only one to hold a lock before the call
    have hbefore : world.mutex.mutexVal = mutexInitVal - world.depth task ∧
        ∀ other, other ≠ task → world.depth other = 0 := by
      rcases hinv.free_or_owned with ⟨hvalue, hfree⟩ | ⟨owner, howns⟩
      · exact ⟨by simp [hvalue, hfree task], fun other _ => hfree other⟩
      · have hpos := howns.pos
        have hvalue : world.mutex.mutexVal ≠ mutexInitVal := by
          rw [howns.value]
          omega
        have hcaller : owner = task := by
          rcases hmay with h | h | h
          · exact absurd h hvalue
          · simp [howns.lockTask] at h
          · exact Option.some.inj (howns.lockTask.symm.trans h)
        subst hcaller
        exact ⟨howns.value, howns.others⟩
    refine ⟨rfl, by simp [MutexWorld.lockReturned], ?_, fun other hother => ?_⟩
    · simp only [MutexWorld.lockReturned, if_true, Function.update_self, hbefore.1]
      push_cast
      omega
    · simp [MutexWorld.lockReturned, hother, hbefore.2 other hother]

/-- An unlock call of the owner leaves it the owner of what it still holds. -/
theorem MutexInv.unlock {world : MutexWorld} (hinv : MutexInv world) {task : Addr} {mutex : Mutex}
    (hguard : world.mutex.mutexVal ≠ mutexInitVal) (hcaller : world.mutex.lockTask = some task)
    (hinit : mutex.mutexInit = true) (hvalue : mutex.mutexVal = world.mutex.mutexVal + 1)
    (hlockTask : mutex.lockTask =
      if world.mutex.mutexVal + 1 = mutexInitVal then none else some task) :
    MutexInv (world.unlockReturned task .success mutex) := by
  obtain ⟨owner, howns⟩ := hinv.free_or_owned.resolve_left fun h => hguard h.1
  obtain rfl : owner = task := Option.some.inj (howns.lockTask.symm.trans hcaller)
  have hpos := howns.pos
  have hbefore := howns.value
  refine ⟨hinit, hinv.awake, by simp [MutexWorld.unlockReturned], ?_⟩
  by_cases hlast : world.depth owner = 1
  · refine .inl ⟨?_, fun other => ?_⟩
    · show mutex.mutexVal = mutexInitVal
      rw [hvalue, hbefore, hlast]
      simp
    · by_cases hother : other = owner
      · simp [MutexWorld.unlockReturned, hother, hlast]
      · simp [MutexWorld.unlockReturned, hother, howns.others other hother]
  · refine .inr ⟨owner, ?_, ?_, ?_, fun other hother => ?_⟩
    · show mutex.lockTask = some owner
      rw [hlockTask, if_neg (by rw [hbefore]; omega)]
    · simp only [MutexWorld.unlockReturned, if_true, Function.update_self]
      omega
    · simp only [MutexWorld.unlockReturned, if_true, Function.update_self, hvalue, hbefore]
      omega
    · simp [MutexWorld.unlockReturned, hother, howns.others other hother]

/-- A call that fails changes nothing that the invariant reads. -/
theorem MutexInv.of_failed {world world' : MutexWorld} (hinv : MutexInv world)
    (hmutex : world'.mutex = world.mutex) (hwaiting : world'.waiting = world.waiting)
    (hdepth : world'.depth = world.depth) (hnone : world'.justLocked = none) :
    MutexInv world' := by
  refine ⟨hmutex ▸ hinv.init, hwaiting ▸ hinv.awake, by simp [hnone], ?_⟩
  rw [hmutex, hdepth]
  refine hinv.free_or_owned.imp_right fun ⟨task, howns⟩ => ⟨task, ?_⟩
  exact ⟨hmutex ▸ howns.lockTask, hdepth ▸ howns.pos, by rw [hmutex, hdepth, howns.value],
    hdepth ▸ howns.others⟩

theorem MutexInv.step {cfg : HeliosConfig} {op : MutexOp} {world world' : MutexWorld}
    (hinv : MutexInv world) (hguard : NeverWaits op world) (hstep : MutexStep cfg op world world') :
    MutexInv world' := by
  cases hstep with
  | lock hawake hentry =>
      rcases mutexLockEntry_cases hinv.init hentry with ⟨heq, hmay⟩ | heq | ⟨heq, -⟩
      · cases heq
        exact hinv.lock hmay
      · cases heq
        exact hinv.of_failed rfl (MutexWorld.waiting_lockReturned hawake _ _) rfl rfl
      · cases heq
  | wait hawake hentry =>
      rcases mutexLockEntry_cases hinv.init hentry with ⟨heq, -⟩ | heq | ⟨-, hwait⟩
      · cases heq
      · cases heq
      · exact absurd hwait hguard
  | resume hwaiting => simp [hinv.awake] at hwaiting
  | unlock hawake hunlock =>
      rcases mutexUnlock_cases hinv.init hunlock with
        ⟨rfl, rfl, -⟩ | ⟨rfl, hcaller, hinit, hvalue, hlockTask⟩
      · exact hinv.of_failed rfl rfl rfl rfl
      · exact hinv.unlock (fun h => hguard ⟨h, hcaller⟩) hcaller hinit hvalue hlockTask

/-- In every run in which no lock call has to wait, a lock that succeeds makes its caller
the owner and at most one task holds the mutex. -/
theorem mutexExcludes_of_reachable {cfg : HeliosConfig} {world : MutexWorld}
    (hreach : (mutexSystem cfg).Reachable NeverWaits world) : MutexExcludes world := by
  refine MutexInv.excludes (hreach.invariant MutexInv ?_ ?_)
  · rintro start ⟨contents, rfl⟩
    exact ⟨rfl, fun _ => rfl, by simp, .inl ⟨rfl, fun _ => rfl⟩⟩
  · exact fun op before after hbefore hguard hstep => hbefore.step hguard hstep

/-- A mutex created in zero-filled memory. -/
def freeMutex : MutexWorld := ⟨initMutex ⟨0, false, none⟩, fun _ => false, fun _ => 0, none⟩

theorem mutexExcludes_relocked :
    ∃ world, (mutexSystem (defaultConfig true)).Reachable NeverWaits world ∧
      world.depth 1 = 2 ∧ MutexExcludes world := by
  have hreach : (mutexSystem (defaultConfig true)).Reachable NeverWaits _ :=
    .step
      (.step (.start (show (mutexSystem _).init freeMutex from ⟨_, rfl⟩))
        (show NeverWaits (.lock 1 0) _ by simp [NeverWaits])
        (MutexStep.lock rfl rfl))
      (show NeverWaits (.lock 1 5) _ by simp [NeverWaits, MutexWorld.lockReturned])
      (MutexStep.lock rfl rfl)
  exact ⟨_, hreach, rfl, mutexExcludes_of_reachable hreach⟩

/-- Task 1 locks the mutex; task 2 waits for it, and its lock succeeds when the wait ends. -/
theorem exists_reachable_not_mutexExcludes :
    ∃ world, (mutexSystem (defaultConfig true)).Reachable (fun _ _ => True) world ∧
      ¬ MutexExcludes world := by
  have hreach : (mutexSystem (defaultConfig true)).Reachable (fun _ _ => True) _ :=
    .step
      (.step
        (.step (.start (show (mutexSystem _).init freeMutex from ⟨_, rfl⟩)) trivial
          (show MutexStep _ (.lock 1 0) _ _ from .lock rfl rfl))
        trivial (show MutexStep _ (.lock 2 5) _ _ from .wait rfl rfl))
      trivial (show MutexStep _ (.resume 2) _ _ from .resume rfl)
  refine ⟨_, hreach, fun hexcludes => ?_⟩
  exact absurd (hexcludes.owner 2 rfl) (by decide)

end Cyancore.Helios
