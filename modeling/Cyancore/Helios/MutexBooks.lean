/-
# The bookkeeping of a mutex

A mutex keeps two fields: `lock_task`, the task that has taken it, and `mutex_val`, which is
one less for every time that task has taken it.  The books kept here beside them count, for
each task, how often it has taken the mutex and not given it back.  A lock call takes the
mutex where the source sets `lock_flag`; one that had to wait comes back without it and is an
attempt only.

Started free, the two fields agree with the books in every state that calls of any tasks can
reach.
-/

import Cyancore.Helios.Mutex

namespace Cyancore.Helios

open Cyancore.Math

variable {cfg : HeliosConfig} {mutex mutex' : Mutex} {curr : Option Addr} {task : Addr}

/-! ## Calls and books -/

/-- A mutex and what its tasks have done with it. -/
structure MutexBooks where
  mutex : Mutex
  /-- The tasks that are inside `helios_task_wait`, called from `helios_mutex_lock`. -/
  waiting : Addr → Bool
  /-- How often each task has taken the mutex without having unlocked it since. -/
  taken : Addr → ℕ

/-- The task that makes a call. -/
def MutexOp.caller : MutexOp → Addr
  | .lock task _ => task
  | .resume task => task
  | .unlock task => task

/-- What a task does, and what its call returns if it does. -/
abbrev MutexCall := MutexOp × Option Status

/-- One step of one task. -/
inductive BooksStep (cfg : HeliosConfig) : MutexCall → MutexBooks → MutexBooks → Prop
  | lock {books : MutexBooks} {task : Addr} {waitTicks : ℕ} {status : Status} {mutex : Mutex}
      (hawake : books.waiting task = false)
      (hentry : mutexLockEntry cfg waitTicks (some task) books.mutex =
        .done (.returned status mutex)) :
      BooksStep cfg (.lock task waitTicks, some status) books
        { books with
          mutex := mutex
          taken :=
            if status = .success then Function.update books.taken task (books.taken task + 1)
            else books.taken }
  | wait {books : MutexBooks} {task : Addr} {waitTicks : ℕ}
      (hawake : books.waiting task = false)
      (hentry : mutexLockEntry cfg waitTicks (some task) books.mutex = .done .mustWait) :
      BooksStep cfg (.lock task waitTicks, none) books
        { books with waiting := Function.update books.waiting task true }
  | resume {books : MutexBooks} {task : Addr} (hwaiting : books.waiting task = true) :
      BooksStep cfg (.resume task, some (mutexLockExit books.mutex).1) books
        { books with
          mutex := (mutexLockExit books.mutex).2
          waiting := Function.update books.waiting task false }
  | unlock {books : MutexBooks} {task : Addr} {status : Status} {mutex : Mutex}
      (hawake : books.waiting task = false)
      (hunlock : mutexUnlock cfg (some task) books.mutex = .done (status, mutex)) :
      BooksStep cfg (.unlock task, some status) books
        { books with
          mutex := mutex
          taken :=
            if status = .success then Function.update books.taken task (books.taken task - 1)
            else books.taken }

/-- Calls of any tasks on a mutex that is free. -/
def booksSystem (cfg : HeliosConfig) : TransitionSystem MutexBooks MutexCall where
  init books := books.mutex.mutexVal = mutexInitVal ∧ books.mutex.lockTask = none ∧
    (∀ task, books.waiting task = false) ∧ ∀ task, books.taken task = 0
  step := BooksStep cfg

/-- The fields agree with the books: the owner has taken the mutex `depth` times, and no other
task has taken it. -/
structure Balanced (mutex : Mutex) (taken : Addr → ℕ) (depth : ℕ) : Prop where
  value : mutex.mutexVal = mutexInitVal - depth
  free_iff : mutex.lockTask = none ↔ depth = 0
  taken_eq : ∀ task, taken task = if mutex.lockTask = some task then depth else 0

/-- A call of another task than the owner, and a call that fails, leave the mutex as it was. -/
structure Guarded (call : MutexCall) (books books' : MutexBooks) : Prop where
  owner : ∀ owner, books.mutex.lockTask = some owner → call.1.caller ≠ owner →
    books'.mutex = books.mutex
  failed : ∀ status, call.2 = some status → status ≠ .success → books'.mutex = books.mutex

/-! ## One call -/

/-- A lock call on a mutex that was never initialised fails. -/
theorem mutexLockEntry_of_uninit {waitTicks : ℕ} (hinit : mutex.mutexInit = false) :
    mutexLockEntry cfg waitTicks curr mutex = .done (.returned .errorFuncInvalArg mutex) := by
  simp [mutexLockEntry, hinit]

theorem mutexUnlock_of_uninit (hinit : mutex.mutexInit = false) :
    mutexUnlock cfg curr mutex = .done (.errorFuncInvalArg, mutex) := by
  simp [mutexUnlock, hinit]

/-- A lock call that returns at once has taken the mutex, which was free or its own, or has
failed. -/
theorem lockEntry_cases {waitTicks : ℕ} {status : Status}
    (hrun : mutexLockEntry cfg waitTicks curr mutex = .done (.returned status mutex')) :
    (status = .success ∧
        mutex' = { mutex with lockTask := curr, mutexVal := mutex.mutexVal - 1 } ∧
        (mutex.mutexVal = mutexInitVal ∨ mutex.lockTask = none ∨ mutex.lockTask = curr)) ∨
      (status ≠ .success ∧ mutex' = mutex) := by
  by_cases hinit : mutex.mutexInit = false
  · rw [mutexLockEntry_of_uninit hinit] at hrun
    cases hrun
    exact .inr ⟨by decide, rfl⟩
  · rcases mutexLockEntry_cases (by simpa using hinit) hrun with ⟨heq, hmay⟩ | heq | ⟨heq, -⟩
    · cases heq
      exact .inl ⟨rfl, rfl, hmay⟩
    · cases heq
      exact .inr ⟨by decide, rfl⟩
    · cases heq

/-- An unlock call gives one back for the owner, or fails. -/
theorem unlock_cases {status : Status}
    (hrun : mutexUnlock cfg curr mutex = .done (status, mutex')) :
    (status = .success ∧ mutex.lockTask = curr ∧ mutex'.mutexVal = mutex.mutexVal + 1 ∧
        mutex'.lockTask = if mutex.mutexVal + 1 = mutexInitVal then none else curr) ∨
      (status ≠ .success ∧ mutex' = mutex) := by
  by_cases hinit : mutex.mutexInit = false
  · rw [mutexUnlock_of_uninit hinit] at hrun
    cases hrun
    exact .inr ⟨by decide, rfl⟩
  · rcases mutexUnlock_cases (by simpa using hinit) hrun with
      ⟨rfl, rfl, -⟩ | ⟨rfl, howner, -, hvalue, hlockTask⟩
    · exact .inr ⟨by decide, rfl⟩
    · exact .inl ⟨rfl, howner, hvalue, hlockTask⟩

/-! ## The books balance -/

namespace Balanced

variable {taken : Addr → ℕ} {depth : ℕ} (hbooks : Balanced mutex taken depth)

include hbooks

/-- The mutex is at its initial value only while it is free. -/
theorem lockTask_of_value (hvalue : mutex.mutexVal = mutexInitVal) : mutex.lockTask = none := by
  rw [hbooks.free_iff]
  have hdepth := hbooks.value
  omega

/-- A task takes the mutex, free or its own. -/
theorem lock (hmay : mutex.lockTask = none ∨ mutex.lockTask = some task) (mutexInit : Bool) :
    Balanced ⟨mutex.mutexVal - 1, mutexInit, some task⟩
      (Function.update taken task (taken task + 1)) (depth + 1) := by
  have htaken : taken task = depth := by
    rw [hbooks.taken_eq task]
    rcases hmay with hfree | howner
    · rw [if_neg (by simp [hfree]), hbooks.free_iff.mp hfree]
    · rw [if_pos howner]
  refine ⟨?_, by simp, fun other => ?_⟩
  · have hvalue := hbooks.value
    push_cast
    omega
  · by_cases hother : other = task
    · simp [hother, htaken]
    · have hnot : mutex.lockTask ≠ some other := by
        rcases hmay with hfree | howner
        · simp [hfree]
        · simpa [howner] using Ne.symm hother
      simp [hother, Ne.symm hother, hbooks.taken_eq other, hnot]

/-- The owner gives the mutex back once. -/
theorem unlock (howner : mutex.lockTask = some task)
    (hvalue : mutex'.mutexVal = mutex.mutexVal + 1)
    (hlockTask : mutex'.lockTask =
      if mutex.mutexVal + 1 = mutexInitVal then none else some task) :
    Balanced mutex' (Function.update taken task (taken task - 1)) (depth - 1) := by
  have hpos : depth ≠ 0 := fun h => by
    rw [hbooks.free_iff.mpr h] at howner
    cases howner
  have hdepth := hbooks.value
  have hlast : mutex.mutexVal + 1 = mutexInitVal ↔ depth - 1 = 0 := by
    rw [hdepth]
    omega
  simp only [hlast] at hlockTask
  refine ⟨by omega, ?_, fun other => ?_⟩
  · rw [hlockTask]
    by_cases hfree : depth - 1 = 0
    · simp [hfree]
    · simp [hfree]
  · by_cases hother : other = task
    · subst hother
      rw [Function.update_self, hbooks.taken_eq other, if_pos howner, hlockTask]
      by_cases hfree : depth - 1 = 0
      · simp [hfree]
      · simp [hfree]
    · have hnot : mutex.lockTask ≠ some other := by simpa [howner] using Ne.symm hother
      have hnot' : mutex'.lockTask ≠ some other := by
        rw [hlockTask]
        by_cases hfree : depth - 1 = 0
        · simp [hfree]
        · simpa [hfree] using Ne.symm hother
      rw [Function.update_of_ne hother, hbooks.taken_eq other, if_neg hnot, if_neg hnot']

end Balanced

/-- Every step keeps the books balanced, at some depth. -/
theorem BooksStep.balanced {call : MutexCall} {books books' : MutexBooks} {depth : ℕ}
    (hstep : BooksStep cfg call books books') (hbooks : Balanced books.mutex books.taken depth) :
    ∃ depth', Balanced books'.mutex books'.taken depth' := by
  cases hstep with
  | lock hawake hentry =>
      rcases lockEntry_cases hentry with ⟨rfl, rfl, hmay⟩ | ⟨hfailed, rfl⟩
      · rw [if_pos rfl]
        exact ⟨_, hbooks.lock (hmay.elim (fun h => .inl (hbooks.lockTask_of_value h)) id) _⟩
      · rw [if_neg hfailed]
        exact ⟨depth, hbooks⟩
  | wait hawake hentry => exact ⟨depth, hbooks⟩
  | resume hwaiting => exact ⟨depth, hbooks⟩
  | unlock hawake hunlock =>
      rcases unlock_cases hunlock with ⟨rfl, howner, hvalue, hlockTask⟩ | ⟨hfailed, rfl⟩
      · rw [if_pos rfl]
        exact ⟨_, hbooks.unlock howner hvalue hlockTask⟩
      · rw [if_neg hfailed]
        exact ⟨depth, hbooks⟩

/-- While the mutex is taken only its owner changes it, and a call that fails never does. -/
theorem BooksStep.guarded {call : MutexCall} {books books' : MutexBooks} {depth : ℕ}
    (hstep : BooksStep cfg call books books') (hbooks : Balanced books.mutex books.taken depth) :
    Guarded call books books' := by
  cases hstep with
  | lock hawake hentry =>
      rcases lockEntry_cases hentry with ⟨rfl, rfl, hmay⟩ | ⟨hfailed, rfl⟩
      · refine ⟨fun owner howner hother => ?_, fun status hstatus hfailed => ?_⟩
        · exfalso
          rcases hmay with hvalue | hfree | hcaller
          · rw [hbooks.lockTask_of_value hvalue] at howner
            cases howner
          · rw [hfree] at howner
            cases howner
          · exact hother (Option.some.inj (hcaller.symm.trans howner))
        · exact absurd (Option.some.inj hstatus).symm hfailed
      · exact ⟨fun _ _ _ => rfl, fun _ _ _ => rfl⟩
  | wait hawake hentry => exact ⟨fun _ _ _ => rfl, fun _ _ _ => rfl⟩
  | resume hwaiting => exact ⟨fun _ _ _ => rfl, fun _ _ _ => rfl⟩
  | unlock hawake hunlock =>
      rcases unlock_cases hunlock with ⟨rfl, howner, -, -⟩ | ⟨hfailed, rfl⟩
      · refine ⟨fun owner howner' hother => ?_, fun status hstatus hfailed => ?_⟩
        · exact absurd (Option.some.inj (howner.symm.trans howner')) hother
        · exact absurd (Option.some.inj hstatus).symm hfailed
      · exact ⟨fun _ _ _ => rfl, fun _ _ _ => rfl⟩

/-- In every state reached by calls of any tasks on a free mutex the fields agree with the books,
and only the owner, by a call that succeeds, can change them. -/
theorem books_of_reachable {books : MutexBooks}
    (hreach : (booksSystem cfg).Reachable (fun _ _ => True) books) :
    (∃ depth, Balanced books.mutex books.taken depth) ∧
      ∀ call books', BooksStep cfg call books books' → Guarded call books books' := by
  have hbalanced : ∃ depth, Balanced books.mutex books.taken depth := by
    apply hreach.invariant fun books => ∃ depth, Balanced books.mutex books.taken depth
    · rintro start ⟨hvalue, hfree, -, htaken⟩
      refine ⟨0, by simp [hvalue], by simp [hfree], fun task => ?_⟩
      simp [hfree, htaken]
    · rintro call before after ⟨depth, hbefore⟩ - hstep
      exact hstep.balanced hbefore
  obtain ⟨depth, hbooks⟩ := hbalanced
  exact ⟨⟨depth, hbooks⟩, fun call books' hstep => hstep.guarded hbooks⟩

/-! ## Calls come to an answer -/

namespace Balanced

variable {taken : Addr → ℕ} {depth : ℕ} (hbooks : Balanced mutex taken depth)

include hbooks

/-- A lock call comes to an answer or a wait, unless the depth is at the end of the range of
`int`. -/
theorem exists_lockEntry (hrange : (depth : ℤ) ≤ 2 ^ (cfg.intBits - 1)) (waitTicks : ℕ)
    (curr : Option Addr) : ∃ entry, mutexLockEntry cfg waitTicks curr mutex = .done entry := by
  have htake : ∃ entry, takeMutex cfg curr mutex = .done entry := by
    have hvalue := hbooks.value
    simp only [mutexInitVal] at hvalue
    have hlow : mutex.mutexVal ≠ -2 ^ (cfg.intBits - 1) := by omega
    exact ⟨_, by rw [takeMutex, HeliosConfig.intPred, if_neg hlow]; rfl⟩
  rw [mutexLockEntry]
  split
  · exact ⟨_, rfl⟩
  · split
    · split
      · exact ⟨_, rfl⟩
      · split
        · exact ⟨_, rfl⟩
        · exact htake
    · exact htake

/-- An unlock call always comes to an answer. -/
theorem exists_unlock (curr : Option Addr) :
    ∃ answer, mutexUnlock cfg curr mutex = .done answer := by
  have hvalue := hbooks.value
  have hbits : (2 : ℤ) ^ 15 ≤ 2 ^ (cfg.intBits - 1) :=
    mod_cast Nat.pow_le_pow_right (Nat.succ_pos 1)
      (Nat.le_sub_one_of_lt cfg.sixteen_le_intBits)
  simp only [mutexInitVal] at hvalue
  have hhigh : mutex.mutexVal ≠ 2 ^ (cfg.intBits - 1) - 1 := by omega
  rw [mutexUnlock, HeliosConfig.intSucc, if_neg hhigh]
  split
  · exact ⟨_, rfl⟩
  · split
    · exact ⟨_, rfl⟩
    · simp only [Outcome.pure_eq, Outcome.done_bind]
      split
      · exact ⟨_, rfl⟩
      · exact ⟨_, rfl⟩

end Balanced

/-! ## A run -/

/-- A mutex created in zero-filled memory, with nothing in the books. -/
def freshBooks : MutexBooks := ⟨initMutex ⟨0, false, none⟩, fun _ => false, fun _ => 0⟩

/-- Task 1 has locked the mutex twice, and task 2 has come back from a wait for it. -/
theorem books_relocked :
    ∃ books, (booksSystem (defaultConfig true)).Reachable (fun _ _ => True) books ∧
      books.taken 1 = 2 ∧
      ((∃ depth, Balanced books.mutex books.taken depth) ∧
        ∀ call books', BooksStep (defaultConfig true) call books books' →
          Guarded call books books') := by
  have hstart : (booksSystem (defaultConfig true)).init freshBooks :=
    ⟨rfl, rfl, fun _ => rfl, fun _ => rfl⟩
  have hreach : (booksSystem (defaultConfig true)).Reachable (fun _ _ => True) _ :=
    .step
      (.step
        (.step
          (.step (.start hstart) trivial
            (show BooksStep _ (.lock 1 0, some .success) _ _ from .lock rfl rfl))
          trivial (show BooksStep _ (.lock 1 5, some .success) _ _ from .lock rfl rfl))
        trivial (show BooksStep _ (.lock 2 5, none) _ _ from .wait rfl rfl))
      trivial (show BooksStep _ (.resume 2, _) _ _ from .resume rfl)
  exact ⟨_, hreach, rfl, books_of_reachable hreach⟩

end Cyancore.Helios
