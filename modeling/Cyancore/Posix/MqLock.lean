/-
# The life of the queue mutex

All queues share `g_mq_mutex`, and each `mq_open` initialises it and each `mq_close`
destroys it.  Two queues open at the same time therefore share a mutex that is initialised
again under the first of them, and destroyed under whichever is closed last.

A run is any sequence of successful opens and closes, with transfers on open queues in
between.  Every event of the run is kept together with the queues that were open at the
time.
-/

import Cyancore.Math.Transition
import Cyancore.Posix.MqOpen
import Cyancore.Posix.MqTransfer
import Mathlib.Data.List.Infix

namespace Cyancore.Posix

open Cyancore.Math StatusCode

/-! ## Lives -/

/-- An event, and the queues that were open when it came about. -/
abbrev Moment := List ℕ × Event

/-- Whether the mutex is destroyed after an event, if it was or was not before. -/
def destroyedAfter (destroyed : Bool) : Event → Bool
  | .pthread .mutexInit => false
  | .pthread .mutexDestroy => true
  | _ => destroyed

/-- Whether a history that starts with the mutex not destroyed ends with it destroyed. -/
def destroyedBy (destroyed : Bool) (history : List Moment) : Bool :=
  history.foldl (fun destroyed moment => destroyedAfter destroyed moment.2) destroyed

/-- The mutex is not used once it is destroyed, and not initialised under an open queue. -/
def LockSafe : Bool → List Moment → Prop
  | _, [] => True
  | destroyed, moment :: history =>
      (moment.2 = .pthread .mutexLock ∨ moment.2 = .pthread .mutexUnlock → destroyed = false) ∧
      (moment.2 = .pthread .mutexInit → moment.1 = []) ∧
      LockSafe (destroyedAfter destroyed moment.2) history

@[simp]
theorem destroyedBy_cons (destroyed : Bool) (moment : Moment) (history : List Moment) :
    destroyedBy destroyed (moment :: history) =
      destroyedBy (destroyedAfter destroyed moment.2) history := rfl

theorem destroyedBy_append (destroyed : Bool) (history history' : List Moment) :
    destroyedBy destroyed (history ++ history') =
      destroyedBy (destroyedBy destroyed history) history' :=
  List.foldl_append

theorem lockSafe_append {destroyed : Bool} {history history' : List Moment} :
    LockSafe destroyed (history ++ history') ↔
      LockSafe destroyed history ∧ LockSafe (destroyedBy destroyed history) history' := by
  induction history generalizing destroyed with
  | nil => exact (true_and _).symm.to_iff
  | cons moment history ih =>
      rw [List.cons_append, LockSafe, LockSafe, ih, destroyedBy_cons, and_assoc, and_assoc]

/-- The event neither starts nor ends a life of the mutex. -/
def Event.Calm (event : Event) : Prop :=
  event ≠ .pthread .mutexInit ∧ event ≠ .pthread .mutexDestroy

theorem destroyedAfter_of_calm {event : Event} (hcalm : event.Calm) (destroyed : Bool) :
    destroyedAfter destroyed event = destroyed := by
  unfold destroyedAfter
  split
  · exact absurd rfl hcalm.1
  · exact absurd rfl hcalm.2
  · rfl

/-- Calm events on a live mutex are safe, and leave it alive. -/
theorem lockSafe_of_calm {history : List Moment} (hcalm : ∀ moment ∈ history, moment.2.Calm) :
    LockSafe false history ∧ destroyedBy false history = false := by
  induction history with
  | nil => exact ⟨trivial, rfl⟩
  | cons moment history ih =>
      obtain ⟨hfirst, hrest⟩ := List.forall_mem_cons.mp hcalm
      obtain ⟨hsafe, hlive⟩ := ih hrest
      have hafter := destroyedAfter_of_calm hfirst false
      constructor
      · refine ⟨fun _ => rfl, fun hinit => absurd hinit hfirst.1, ?_⟩
        rwa [hafter]
      · rwa [destroyedBy_cons, hafter]

/-! ## What the calls do to the mutex -/

section Calls

variable {config : MqConfig} {world : World} {sections sections' : Sections} {mqdes : ℕ}
  {log : List Event}

/-- What a successful `mq_close` asks of its surroundings. -/
def closeLog (id : ℕ) : List Event :=
  [.pthread .mutexLock, .superCall (.mqClose id) success, .pthread .mutexUnlock,
    .pthread .mutexattrDestroy, .pthread .mutexDestroy]

/-- The call without its intermediate names. -/
theorem mqClose_eq (world : World) (sections : Sections) (mqdes : ℕ) :
    mqClose world sections mqdes =
      if mqdes = 0 then (errorFuncInvalArg, sections, [])
      else if world.pthread .mutexLock ≠ success then
        (errorDeviceBusy, sections, [.pthread .mutexLock])
      else
        let closed := { sections mqdes with attr := ⟨0, 0, 0, 0⟩ }
        let sections := fun address => if address = mqdes then closed else sections address
        let log := [.pthread .mutexLock, .superCall (.mqClose closed.id) (world.kernel 0).status,
          .pthread .mutexUnlock]
        if world.pthread .mutexUnlock ≠ success then (errorDeviceBusy, sections, log)
        else (if (world.kernel 0).status ≠ success then errorFuncInval else success, sections,
          log ++ [.pthread .mutexattrDestroy, .pthread .mutexDestroy]) := rfl

theorem log_of_mqClose (hclose : mqClose world sections mqdes = (success, sections', log)) :
    ∃ id, log = closeLog id := by
  rw [mqClose_eq] at hclose
  by_cases hnull : mqdes = 0
  · rw [if_pos hnull] at hclose
    exact absurd (Prod.mk.inj hclose).1 (by decide)
  rw [if_neg hnull] at hclose
  by_cases hlock : world.pthread .mutexLock ≠ success
  · rw [if_pos hlock] at hclose
    exact absurd (Prod.mk.inj hclose).1 (by decide)
  rw [if_neg hlock] at hclose
  by_cases hunlock : world.pthread .mutexUnlock ≠ success
  · simp only [if_pos hunlock] at hclose
    exact absurd (Prod.mk.inj hclose).1 (by decide)
  simp only [if_neg hunlock, Prod.mk.injEq] at hclose
  obtain ⟨herr, -, rfl⟩ := hclose
  have hkernel : (world.kernel 0).status = success := by
    by_contra hkernel
    rw [if_pos hkernel] at herr
    exact absurd herr (by decide)
  rw [hkernel]
  exact ⟨_, rfl⟩

def CalmLog (log : List Event) : Prop := ∀ event ∈ log, event.Calm

@[simp]
theorem calmLog_nil : CalmLog [] := List.forall_mem_nil _

@[simp]
theorem calmLog_cons {event : Event} {log : List Event} :
    CalmLog (event :: log) ↔ event.Calm ∧ CalmLog log :=
  List.forall_mem_cons

@[simp]
theorem calmLog_append {log entries : List Event} :
    CalmLog (log ++ entries) ↔ CalmLog log ∧ CalmLog entries :=
  List.forall_mem_append

variable {attempt : List Event → StatusCode × List Event} {mqFlags : BitVec 32} {ticks : ℕ}

/-- A transfer neither initialises the mutex nor destroys it, whatever the world answers. -/
theorem calm_transferWithin (hattempt : ∀ log, CalmLog log → CalmLog (attempt log).2)
    (hlog : CalmLog log) {result : StatusCode × List Event}
    (hresult : Returns (transferWithin world attempt mqFlags mqdes ticks log) result) :
    CalmLog result.2 := by
  apply transferWithin_invariant _ hattempt hlog hresult
  intro log event haround hlog
  obtain rfl | rfl | rfl := haround <;> simp [hlog, Event.Calm]

variable {queue : MqdSection} {msgPtr msgLen msgPrio : ℕ} {abstime : Option Timespec}

theorem calm_sQueueWrite (hlog : CalmLog log) :
    CalmLog (sQueueWrite world queue msgPtr msgLen msgPrio log).2 := by
  by_cases hflags : queue.attr.mqFlags &&& oRdonly = 0
  · rwa [sQueueWrite_of_refused hflags]
  · rw [sQueueWrite_of_access hflags]
    simp [hlog, Event.Calm]

theorem calm_sQueueRead (hlog : CalmLog log) :
    CalmLog (sQueueRead world queue msgPtr msgLen log).2 := by
  by_cases hflags : queue.attr.mqFlags &&& oWronly = 0
  · rwa [sQueueRead_of_refused hflags]
  · rw [sQueueRead_of_access hflags]
    split
    · simp [hlog, Event.Calm]
    · simp [hlog, Event.Calm]

theorem calm_mqTimedsend {result : StatusCode × List Event}
    (hresult : Returns (mqTimedsend config world sections mqdes msgPtr msgLen msgPrio abstime)
      result) : CalmLog result.2 := by
  obtain ⟨fuel, hfuel⟩ := hresult
  unfold mqTimedsend at hfuel
  split_ifs at hfuel with hargs
  · cases hfuel
    exact calmLog_nil
  · split at hfuel
    · cases hfuel
      exact calmLog_nil
    · exact calm_transferWithin (fun log hlog => calm_sQueueWrite hlog) calmLog_nil ⟨fuel, hfuel⟩

theorem calm_mqTimedreceive {result : StatusCode × List Event}
    (hresult : Returns (mqTimedreceive config world sections mqdes msgPtr msgLen msgPrio abstime)
      result) : CalmLog result.2 := by
  have hreset : CalmLog [.reset msgPrio] := by simp [Event.Calm]
  obtain ⟨fuel, hfuel⟩ := hresult
  unfold mqTimedreceive at hfuel
  split_ifs at hfuel with hargs hprio
  · cases hfuel
    exact calmLog_nil
  · split at hfuel
    · cases hfuel
      exact hreset
    · exact calm_transferWithin (fun log hlog => calm_sQueueRead hlog) hreset ⟨fuel, hfuel⟩

end Calls

/-! ## Runs -/

/-- The calls of a run.  What `mq_open` returns is not a descriptor, so a run leaves open
through which one the queue is used. -/
inductive MqOp
  | mqOpen (name : Option (List UInt8)) (oflag : BitVec 32) (attr : Option MqAttr) (mqdes : ℕ)
  | mqClose (mqdes : ℕ)
  | mqTimedsend (mqdes msgPtr msgLen msgPrio : ℕ) (abstime : Option Timespec)
  | mqTimedreceive (mqdes msgPtr msgLen msgPrio : ℕ) (abstime : Option Timespec)
  deriving DecidableEq, Repr

/-- The memory, the open queues and what has happened. -/
structure QueueState where
  sections : Sections
  queues : List ℕ
  history : List Moment

/-- What a call adds to the history. -/
def QueueState.record (state : QueueState) (log : List Event) : List Moment :=
  state.history ++ log.map fun event => (state.queues, event)

/-- Opens and closes are successful, and closes and transfers are those of open queues. -/
def queueStep (config : MqConfig) : MqOp → QueueState → QueueState → Prop
  | .mqOpen name oflag attr mqdes, state, state' =>
      ∃ world sections log,
        mqOpen config world state.sections name oflag attr = .done (success, sections, log) ∧
          state' = ⟨sections, mqdes :: state.queues, state.record log⟩
  | .mqClose mqdes, state, state' =>
      mqdes ∈ state.queues ∧ ∃ world sections log,
        mqClose world state.sections mqdes = (success, sections, log) ∧
          state' = ⟨sections, state.queues.erase mqdes, state.record log⟩
  | .mqTimedsend mqdes msgPtr msgLen msgPrio abstime, state, state' =>
      mqdes ∈ state.queues ∧ ∃ world status log,
        Returns (mqTimedsend config world state.sections mqdes msgPtr msgLen msgPrio abstime)
          (status, log) ∧ state' = { state with history := state.record log }
  | .mqTimedreceive mqdes msgPtr msgLen msgPrio abstime, state, state' =>
      mqdes ∈ state.queues ∧ ∃ world status log,
        Returns (mqTimedreceive config world state.sections mqdes msgPtr msgLen msgPrio abstime)
          (status, log) ∧ state' = { state with history := state.record log }

/-- Runs start without queues. -/
def queueSystem (config : MqConfig) : TransitionSystem QueueState MqOp where
  init state := state.queues = [] ∧ state.history = []
  step := queueStep config

/-- The queues that a call leaves open. -/
def queuesAfter (queues : List ℕ) : MqOp → List ℕ
  | .mqOpen _ _ _ mqdes => mqdes :: queues
  | .mqClose mqdes => queues.erase mqdes
  | _ => queues

/-- The queues that are open after the listed calls. -/
def openAfter (ops : List MqOp) : List ℕ := ops.foldl queuesAfter []

/-- After no call of a run is more than one queue open. -/
def OneAtATime (ops : List MqOp) : Prop := ∀ before, before <+: ops → (openAfter before).length ≤ 1

instance : DecidablePred OneAtATime := fun ops =>
  decidable_of_iff (∀ before ∈ ops.inits, (openAfter before).length ≤ 1) (by simp [OneAtATime])

section Run

variable {config : MqConfig} {state state' : QueueState} {op : MqOp} {ops : List MqOp}

theorem openAfter_append (ops : List MqOp) (op : MqOp) :
    openAfter (ops ++ [op]) = queuesAfter (openAfter ops) op := by
  rw [openAfter, List.foldl_append]
  rfl

theorem oneAtATime_append :
    OneAtATime (ops ++ [op]) ↔
      OneAtATime ops ∧ (queuesAfter (openAfter ops) op).length ≤ 1 := by
  rw [← openAfter_append]
  constructor
  · intro hone
    exact ⟨fun before hbefore => hone before (hbefore.trans (List.prefix_append _ _)),
      hone _ (List.prefix_refl _)⟩
  · rintro ⟨hbefore, hlast⟩ before hprefix
    cases List.prefix_concat_iff.mp hprefix with
    | inl heq => rwa [heq]
    | inr hprefix => exact hbefore before hprefix

/-- A call keeps the books on the open queues, and adds to the history. -/
theorem queueStep_books (hstep : queueStep config op state state') :
    state'.queues = queuesAfter state.queues op ∧ ∃ log, state'.history = state.record log := by
  cases op with
  | mqOpen name oflag attr mqdes =>
      obtain ⟨world, sections, log, -, rfl⟩ := hstep
      exact ⟨rfl, log, rfl⟩
  | mqClose mqdes =>
      obtain ⟨-, world, sections, log, -, rfl⟩ := hstep
      exact ⟨rfl, log, rfl⟩
  | mqTimedsend mqdes msgPtr msgLen msgPrio abstime =>
      obtain ⟨-, world, status, log, -, rfl⟩ := hstep
      exact ⟨rfl, log, rfl⟩
  | mqTimedreceive mqdes msgPtr msgLen msgPrio abstime =>
      obtain ⟨-, world, status, log, -, rfl⟩ := hstep
      exact ⟨rfl, log, rfl⟩

/-- The mutex is alive whenever a queue is open. -/
def Alive (state : QueueState) : Prop :=
  state.queues ≠ [] → destroyedBy false state.history = false

theorem lockSafe_record {log : List Event} :
    LockSafe false (state.record log) ↔ LockSafe false state.history ∧
      LockSafe (destroyedBy false state.history) (log.map fun event => (state.queues, event)) :=
  lockSafe_append

theorem destroyedBy_record (log : List Event) :
    destroyedBy false (state.record log) =
      destroyedBy (destroyedBy false state.history) (log.map fun event => (state.queues, event)) :=
  destroyedBy_append _ _ _

/-- Opening a queue is safe exactly when none is open, and leaves the mutex alive. -/
theorem lockSafe_openLog {destroyed : Bool} {queues : List ℕ} (size : BitVec 32) :
    (LockSafe destroyed ((openLog size).map fun event => (queues, event)) ↔ queues = []) ∧
      destroyedBy destroyed ((openLog size).map fun event => (queues, event)) = false := by
  constructor
  · simp [openLog, LockSafe, destroyedAfter]
  · rfl

/-- Closing one is safe while the mutex is alive. -/
theorem lockSafe_closeLog (queues : List ℕ) (id : ℕ) :
    LockSafe false ((closeLog id).map fun event => (queues, event)) := by
  simp [closeLog, LockSafe, destroyedAfter]

/-- A transfer on an open queue is safe while the mutex is alive, and leaves it alive. -/
theorem lockSafe_record_of_calm {log : List Event} (hsafe : LockSafe false state.history)
    (halive : destroyedBy false state.history = false) (hcalm : CalmLog log) :
    LockSafe false (state.record log) ∧ destroyedBy false (state.record log) = false := by
  have hmoments : ∀ moment ∈ log.map fun event => (state.queues, event), moment.2.Calm := by
    intro moment hmem
    obtain ⟨event, hevent, rfl⟩ := List.mem_map.mp hmem
    exact hcalm event hevent
  have hlog := lockSafe_of_calm hmoments
  rw [lockSafe_record, destroyedBy_record, halive]
  exact ⟨⟨hsafe, hlog.1⟩, hlog.2⟩

/-- A call on a run that is safe so far, with one queue open at most: it is safe exactly if
it leaves no more than one open, and then the mutex is alive if there is one. -/
theorem queueStep_safe (hstep : queueStep config op state state')
    (hsafe : LockSafe false state.history) (halive : Alive state)
    (hone : state.queues.length ≤ 1) :
    (LockSafe false state'.history ↔ (queuesAfter state.queues op).length ≤ 1) ∧
      ((queuesAfter state.queues op).length ≤ 1 → Alive state') := by
  cases op with
  | mqOpen name oflag attr mqdes =>
      obtain ⟨world, sections, log, hopen, rfl⟩ := hstep
      obtain ⟨size, rfl⟩ := log_of_mqOpen hopen
      obtain ⟨hlog, hlive⟩ :=
        @lockSafe_openLog (destroyedBy false state.history) state.queues size
      constructor
      · rw [lockSafe_record, hlog, and_iff_right hsafe, queuesAfter, List.length_cons,
          ← List.length_eq_zero_iff]
        omega
      · intro _ _
        exact (destroyedBy_record _).trans hlive
  | mqClose mqdes =>
      obtain ⟨hmem, world, sections, log, hclose, rfl⟩ := hstep
      obtain ⟨id, rfl⟩ := log_of_mqClose hclose
      have hlength : (state.queues.erase mqdes).length = 0 := by
        rw [List.length_erase_of_mem hmem]
        omega
      constructor
      · rw [lockSafe_record, halive (List.ne_nil_of_mem hmem)]
        exact iff_of_true ⟨hsafe, lockSafe_closeLog _ _⟩ (hlength ▸ Nat.zero_le 1)
      · intro _ hqueues
        exact absurd (List.length_eq_zero_iff.mp hlength) hqueues
  | mqTimedsend mqdes msgPtr msgLen msgPrio abstime =>
      obtain ⟨hmem, world, status, log, hsend, rfl⟩ := hstep
      obtain ⟨hrecord, hlive⟩ := lockSafe_record_of_calm hsafe
        (halive (List.ne_nil_of_mem hmem)) (calm_mqTimedsend hsend)
      exact ⟨iff_of_true hrecord hone, fun _ _ => hlive⟩
  | mqTimedreceive mqdes msgPtr msgLen msgPrio abstime =>
      obtain ⟨hmem, world, status, log, hreceive, rfl⟩ := hstep
      obtain ⟨hrecord, hlive⟩ := lockSafe_record_of_calm hsafe
        (halive (List.ne_nil_of_mem hmem)) (calm_mqTimedreceive hreceive)
      exact ⟨iff_of_true hrecord hone, fun _ _ => hlive⟩

variable {start : QueueState}

theorem queues_of_leads (hstart : (queueSystem config).init start)
    (hrun : (queueSystem config).Leads start ops state) : state.queues = openAfter ops := by
  induction hrun with
  | nil => exact hstart.1
  | snoc _ hstep ih => rw [(queueStep_books hstep).1, ih, openAfter_append]

/-- The run lemma: what a run has done is safe exactly if it had one queue open at a time. -/
theorem lockSafe_of_leads (hstart : (queueSystem config).init start)
    (hrun : (queueSystem config).Leads start ops state) :
    (LockSafe false state.history ↔ OneAtATime ops) ∧ (OneAtATime ops → Alive state) := by
  induction hrun with
  | nil =>
      rw [hstart.2]
      refine ⟨iff_of_true trivial ?_, fun _ hqueues => absurd hstart.1 hqueues⟩
      intro before hbefore
      rw [List.prefix_nil.mp hbefore]
      exact Nat.zero_le 1
  | @snoc ops op middle state hleads hstep ih =>
      obtain ⟨hbooks, log, hhistory⟩ := queueStep_books hstep
      rw [oneAtATime_append, ← queues_of_leads hstart hleads]
      by_cases hone : OneAtATime ops
      · have hlength : middle.queues.length ≤ 1 := by
          rw [queues_of_leads hstart hleads]
          exact hone ops (List.prefix_refl _)
        obtain ⟨hiff, halive⟩ := queueStep_safe hstep (ih.1.mpr hone) (ih.2 hone) hlength
        rw [and_iff_right hone]
        exact ⟨hiff, halive⟩
      · constructor
        · rw [hhistory, lockSafe_record, ih.1]
          exact iff_of_false (fun hsafe => hone hsafe.1) fun hboth => hone hboth.1
        · exact fun hboth => absurd hboth.1 hone

/-- Over a run the mutex is used and initialised as it should be exactly if no two queues
are ever open at the same time. -/
theorem lockSafe_iff_oneAtATime (hstart : (queueSystem config).init start)
    (hrun : (queueSystem config).Leads start ops state) :
    LockSafe false state.history ↔ OneAtATime ops :=
  (lockSafe_of_leads hstart hrun).1

end Run

/-! ## Two runs -/

/-- Open a queue through a descriptor. -/
def openThrough (mqdes : ℕ) : MqOp := .mqOpen (some [0x71]) (oRdwr ||| oCreat) none mqdes

section Willing

variable {start state : QueueState} {ops : List MqOp}

theorem leads_open (hrun : (queueSystem ⟨32, true⟩).Leads start ops state) (mqdes : ℕ) :
    ∃ state', (queueSystem ⟨32, true⟩).Leads start (ops ++ [openThrough mqdes]) state' :=
  ⟨_, hrun.snoc ⟨willing, _, _, rfl, rfl⟩⟩

theorem leads_close (hstart : (queueSystem ⟨32, true⟩).init start)
    (hrun : (queueSystem ⟨32, true⟩).Leads start ops state) (mqdes : ℕ)
    (hopen : mqdes + 1 ∈ openAfter ops) :
    ∃ state', (queueSystem ⟨32, true⟩).Leads start (ops ++ [.mqClose (mqdes + 1)]) state' := by
  rw [← queues_of_leads hstart hrun] at hopen
  exact ⟨_, hrun.snoc ⟨hopen, willing, _, _, rfl, rfl⟩⟩

theorem leads_send (hstart : (queueSystem ⟨32, true⟩).init start)
    (hrun : (queueSystem ⟨32, true⟩).Leads start ops state) (mqdes : ℕ)
    (hopen : mqdes + 1 ∈ openAfter ops) :
    ∃ state', (queueSystem ⟨32, true⟩).Leads start
      (ops ++ [.mqTimedsend (mqdes + 1) 0x3000 5 0 none]) state' := by
  rw [← queues_of_leads hstart hrun] at hopen
  have hattempt := attempts_sends willing (state.sections (mqdes + 1)) 0x3000 5 0
  obtain ⟨transfer, hends, -⟩ := exists_spent_of_timeout hattempt
    (.inr rfl : RecordsTimeout (state.sections (mqdes + 1)).attr.mqFlags 0)
      ([] ++ [.pthread .mutexLock])
  have hmutex : MutexServes willing := ⟨rfl, rfl⟩
  have hsend := (returns_transferWithin_iff hmutex (mqdes + 1)).mpr ⟨transfer, hends, rfl⟩
  exact ⟨_, hrun.snoc ⟨hopen, willing, _, _, hsend, rfl⟩⟩

end Willing

/-- No queue is open. -/
def noQueues : QueueState := ⟨fun _ => ⟨0, [], ⟨0, 0, 0, 0⟩, 0⟩, [], []⟩

theorem init_noQueues : (queueSystem ⟨32, true⟩).init noQueues := ⟨rfl, rfl⟩

/-- One queue is opened, sent to and closed before another is opened. -/
theorem lockSafe_in_turn :
    ∃ state, (queueSystem ⟨32, true⟩).Leads noQueues
        [openThrough 1, .mqTimedsend 1 0x3000 5 0 none, .mqClose 1, openThrough 2] state ∧
      LockSafe false state.history := by
  obtain ⟨_, hopen⟩ := leads_open .nil 1
  obtain ⟨_, hsend⟩ := leads_send init_noQueues hopen 0 (by decide)
  obtain ⟨_, hclose⟩ := leads_close init_noQueues hsend 0 (by decide)
  obtain ⟨state, hrun⟩ := leads_open hclose 2
  exact ⟨state, hrun, (lockSafe_iff_oneAtATime init_noQueues hrun).mpr (by decide)⟩

/-- Two queues are opened, one is closed, and the other is sent to. -/
theorem not_lockSafe_overlapping :
    ∃ state, (queueSystem ⟨32, true⟩).Leads noQueues
        [openThrough 1, openThrough 2, .mqClose 1, .mqTimedsend 2 0x3000 5 0 none] state ∧
      ¬ LockSafe false state.history := by
  obtain ⟨_, hfirst⟩ := leads_open .nil 1
  obtain ⟨_, hsecond⟩ := leads_open hfirst 2
  obtain ⟨_, hclose⟩ := leads_close init_noQueues hsecond 0 (by decide)
  obtain ⟨state, hrun⟩ := leads_send init_noQueues hclose 1 (by decide)
  refine ⟨state, hrun, ?_⟩
  rw [(lockSafe_of_leads init_noQueues hrun).1]
  decide

end Cyancore.Posix
