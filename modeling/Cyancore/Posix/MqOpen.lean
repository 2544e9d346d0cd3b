/-
# What `mq_open` returns

`mq_open` has one variable for the section of the queue, for the status of the
initialisation of the lock, and for the descriptor that it returns.  When the
initialisation succeeds the variable holds the status zero, that is a null pointer, and
nothing allocates a section afterwards.  The queue is written where the null pointer
points, and the null pointer is what a caller gets, whom every other function of the
module then refuses.
-/

import Cyancore.Posix.Mqueue

namespace Cyancore.Posix

open Cyancore.Math StatusCode

/-! ## The run of a successful call -/

/-- What a successful `mq_open` asks of its surroundings. -/
def openLog (size : BitVec 32) : List Event :=
  [.pthread .mutexattrInit, .pthread .mutexInit, .pthread .mutexLock,
    .superCall (.mqOpen size) success, .pthread .mutexUnlock]

/-- The mutex and the kernel answer with success. -/
structure World.Serves (world : World) : Prop where
  pthread : ∀ call, world.pthread call = success
  kernel : ∀ k, (world.kernel k).status = success

section Open

variable {config : MqConfig} {world : World} {sections sections' : Sections}
  {name : List UInt8} {oflag : BitVec 32} {attr : Option MqAttr}

/-- What a call leaves in its log by the time it has the lock. -/
def lockedLog : List Event := [.pthread .mutexattrInit, .pthread .mutexInit, .pthread .mutexLock]

/-- The call without its intermediate names. -/
theorem mqOpen_eq (config : MqConfig) (world : World) (sections : Sections) (name : List UInt8)
    (oflag : BitVec 32) (attr : Option MqAttr) :
    mqOpen config world sections (some name) oflag attr =
      if ¬ min name.length mqNameLenMax < mqNameLenMax then
        .done (errorFuncInvalArg, sections, [])
      else if oflag &&& oCreat = 0 then .done (errorFileNotFound, sections, [])
      else if world.pthread .mutexInit ≠ success then
        .done (world.pthread .mutexInit, sections,
          [.pthread .mutexattrInit, .pthread .mutexInit])
      else if world.pthread .mutexLock ≠ success then
        .done (errorDeviceBusy, sections, lockedLog)
      else if world.pthread .mutexInit = 0 ∧ config.nullMapped = false then .fault .nullDeref
      else .done (mqOpenLocked world sections (world.pthread .mutexInit) name
        (min name.length mqNameLenMax) oflag attr lockedLog) := rfl

/-- The kernel is asked once. -/
theorem mqOpenLocked_log (world : World) (sections : Sections) (pMqdSection : ℕ)
    (name : List UInt8) (nameLen : ℕ) (oflag : BitVec 32) (attr : Option MqAttr) :
    ∃ size, (mqOpenLocked world sections pMqdSection name nameLen oflag attr lockedLog).2.2 =
      lockedLog ++ [.superCall (.mqOpen size) (world.kernel 0).status, .pthread .mutexUnlock] := by
  by_cases hunlock : world.pthread .mutexUnlock = success <;>
    simp [mqOpenLocked, superCall, sMqReleaseLock, hunlock, lockedLog, Event.isSuperCall]

/-- The pointer is returned when the kernel has a queue and gives the lock back. -/
theorem mqOpenLocked_fst (world : World) (sections : Sections) (pMqdSection : ℕ)
    (name : List UInt8) (nameLen : ℕ) (oflag : BitVec 32) (attr : Option MqAttr) :
    (mqOpenLocked world sections pMqdSection name nameLen oflag attr lockedLog).1 =
      if world.pthread .mutexUnlock ≠ success then errorDeviceBusy
      else if (world.kernel 0).status ≠ success then errorFuncInval else pMqdSection := by
  by_cases hunlock : world.pthread .mutexUnlock = success <;>
    by_cases hkernel : (world.kernel 0).status = success <;>
      simp [mqOpenLocked, superCall, sMqReleaseLock, hunlock, hkernel, lockedLog,
        Event.isSuperCall]

theorem log_of_mqOpenLocked {pMqdSection nameLen : ℕ} {log : List Event}
    (hopen : mqOpenLocked world sections pMqdSection name nameLen oflag attr lockedLog =
      (0, sections', log)) : ∃ size, log = openLog size := by
  have hfst := mqOpenLocked_fst world sections pMqdSection name nameLen oflag attr
  obtain ⟨size, hlog⟩ := mqOpenLocked_log world sections pMqdSection name nameLen oflag attr
  rw [hopen] at hfst hlog
  have hunlock : ¬ world.pthread .mutexUnlock ≠ success := by
    intro hunlock
    rw [if_pos hunlock] at hfst
    exact absurd hfst (show 0 ≠ errorDeviceBusy by decide)
  rw [if_neg hunlock] at hfst
  have hkernel : (world.kernel 0).status = success := by
    by_contra hkernel
    rw [if_pos hkernel] at hfst
    exact absurd hfst (show 0 ≠ errorFuncInval by decide)
  rw [hkernel] at hlog
  exact ⟨size, hlog⟩

/-- With everything it asks for answered by success, `mq_open` returns null, unless it stops
at its first store. -/
theorem mqOpen_of_serves (hname : name.length < mqNameLenMax) (hcreat : oflag &&& oCreat ≠ 0)
    (hworld : world.Serves) {descriptor : ℕ} {log : List Event}
    (hopen : mqOpen config world sections (some name) oflag attr =
      .done (descriptor, sections', log)) : descriptor = 0 := by
  have hlen : min name.length mqNameLenMax < mqNameLenMax :=
    Nat.lt_of_le_of_lt (Nat.min_le_left _ _) hname
  rw [mqOpen_eq, if_neg (not_not.mpr hlen), if_neg hcreat,
    if_neg (not_not.mpr (hworld.pthread _)), if_neg (not_not.mpr (hworld.pthread _))] at hopen
  split_ifs at hopen
  have hfst := congrArg Prod.fst (Outcome.done.inj hopen)
  rw [mqOpenLocked_fst, if_neg (not_not.mpr (hworld.pthread _)),
    if_neg (not_not.mpr (hworld.kernel _)), hworld.pthread] at hfst
  exact hfst.symm

/-- A call that returns zero has been answered by success throughout. -/
theorem log_of_mqOpen {name : Option (List UInt8)} {log : List Event}
    (hopen : mqOpen config world sections name oflag attr = .done (0, sections', log)) :
    ∃ size, log = openLog size := by
  cases name with
  | none => cases hopen
  | some name =>
      rw [mqOpen_eq] at hopen
      by_cases hlen : ¬ min name.length mqNameLenMax < mqNameLenMax
      · rw [if_pos hlen] at hopen
        exact absurd (Prod.mk.inj (Outcome.done.inj hopen)).1 (by decide)
      rw [if_neg hlen] at hopen
      by_cases hcreat : oflag &&& oCreat = 0
      · rw [if_pos hcreat] at hopen
        exact absurd (Prod.mk.inj (Outcome.done.inj hopen)).1 (by decide)
      rw [if_neg hcreat] at hopen
      by_cases hinit : world.pthread .mutexInit ≠ success
      · rw [if_pos hinit] at hopen
        exact absurd (congrArg Prod.fst (Outcome.done.inj hopen)) hinit
      rw [if_neg hinit] at hopen
      by_cases hlock : world.pthread .mutexLock ≠ success
      · rw [if_pos hlock] at hopen
        exact absurd (Prod.mk.inj (Outcome.done.inj hopen)).1 (by decide)
      rw [if_neg hlock] at hopen
      by_cases hnull : world.pthread .mutexInit = 0 ∧ config.nullMapped = false
      · rw [if_pos hnull] at hopen
        cases hopen
      rw [if_neg hnull] at hopen
      exact log_of_mqOpenLocked (Outcome.done.inj hopen)

end Open

/-! ## What the descriptor is good for -/

/-- What a caller may expect of a descriptor, while `others` are open. -/
structure DescriptorWorks (config : MqConfig) (sections : Sections) (others : List ℕ)
    (oflag : BitVec 32) (attr : Option MqAttr) (descriptor : ℕ) : Prop where
  nonNull : descriptor ≠ 0
  fresh : descriptor ∉ others
  attributes : ∀ given ∈ attr, ∃ got, mqGetattr sections descriptor = (success, some got) ∧
    got.mqMaxmsg = given.mqMaxmsg ∧ got.mqMsgsize = given.mqMsgsize ∧ got.mqFlags = oflag
  sends : ∀ world msgPtr msgLen msgPrio result, msgPtr ≠ 0 → msgLen ≠ 0 →
    Returns (mqSend config world sections descriptor msgPtr msgLen msgPrio) result →
      result.1 ≠ errorFuncInvalArg
  receives : ∀ world msgPtr msgLen msgPrio result, msgPtr ≠ 0 → msgLen ≠ 0 → msgPrio ≠ 0 →
    Returns (mqReceive config world sections descriptor msgPtr msgLen msgPrio) result →
      result.1 ≠ errorFuncInvalArg

/-- `mq_open` returns a descriptor that works. -/
def OpensQueue (config : MqConfig) (world : World) (sections : Sections) (others : List ℕ)
    (name : List UInt8) (oflag : BitVec 32) (attr : Option MqAttr) : Prop :=
  ∃ descriptor sections' log,
    mqOpen config world sections (some name) oflag attr = .done (descriptor, sections', log) ∧
      DescriptorWorks config sections' others oflag attr descriptor

section Works

variable {config : MqConfig} {world : World} {sections : Sections} {others : List ℕ}
  {name : List UInt8} {oflag : BitVec 32} {attr : Option MqAttr}

/-- Every function of the module refuses null. -/
theorem refuses_null (config : MqConfig) (world : World) (sections : Sections)
    (msgPtr msgLen msgPrio fuel : ℕ) :
    mqGetattr sections 0 = (errorFuncInvalArg, none) ∧
      mqSend config world sections 0 msgPtr msgLen msgPrio fuel = .done (errorFuncInvalArg, []) ∧
      mqReceive config world sections 0 msgPtr msgLen msgPrio fuel =
        .done (errorFuncInvalArg, []) ∧
      mqClose world sections 0 = (errorFuncInvalArg, sections, []) :=
  ⟨rfl, rfl, rfl, rfl⟩

/-- No queue is ever opened: whatever the memory holds and whether or not it can be written
at the null pointer, a valid request whose calls are all answered by success yields no
descriptor that works. -/
theorem not_opensQueue (hname : name.length < mqNameLenMax) (hcreat : oflag &&& oCreat ≠ 0)
    (hworld : world.Serves) : ¬ OpensQueue config world sections others name oflag attr := by
  rintro ⟨descriptor, sections', log, hopen, hworks⟩
  exact hworks.nonNull (mqOpen_of_serves hname hcreat hworld hopen)

end Works

/-- A world without failures, whose kernel hands out queue 1 with a buffer. -/
def willing : World := ⟨fun _ => success, fun _ => ⟨0x1000, 1, success⟩⟩

theorem willing_serves : willing.Serves := ⟨fun _ => rfl, fun _ => rfl⟩

/-- A queue with a name of one character, for reading and writing. -/
theorem not_opensQueue_willing :
    ¬ OpensQueue ⟨32, true⟩ willing (fun _ => ⟨0, [], ⟨0, 0, 0, 0⟩, 0⟩) [] [0x71]
      (oRdwr ||| oCreat) (some ⟨0, 4, 64, 0⟩) :=
  not_opensQueue (by decide) (by decide) willing_serves

/-- It is opened, in that the kernel is asked for it and the section filled, and the
descriptor is null. -/
theorem opens_null :
    (∃ sections, mqOpen ⟨32, true⟩ willing (fun _ => ⟨0, [], ⟨0, 0, 0, 0⟩, 0⟩) (some [0x71])
        (oRdwr ||| oCreat) (some ⟨0, 4, 64, 0⟩) = .done (0, sections, openLog 256)) ∧
      ¬ OpensQueue ⟨32, true⟩ willing (fun _ => ⟨0, [], ⟨0, 0, 0, 0⟩, 0⟩) [] [0x71]
        (oRdwr ||| oCreat) (some ⟨0, 4, 64, 0⟩) := by
  refine ⟨⟨_, rfl⟩, ?_⟩
  rintro ⟨descriptor, sections', log, hopen, hworks⟩
  exact hworks.nonNull (mqOpen_of_serves (by decide) (by decide) willing_serves hopen)

end Cyancore.Posix
