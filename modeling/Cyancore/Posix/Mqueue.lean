/-
# Message queues

A message queue is a section of memory that `mq_open` fills, behind one mutex that all
queues share.  The mutex, the kernel and the copying between a message and the kernel's
buffer are not part of the library: a call yields the list of what it asked of them, and a
`World` answers.

The error numbers are negated status codes, so that `-EBADF` is the status itself.
-/

import Cyancore.Posix.Timespec

namespace Cyancore.Posix

open Cyancore.Math StatusCode

/-! ## Constants -/

/-- `O_CREAT`. -/
def oCreat : BitVec 32 := 0x0002

/-- `O_NONBLOCK`. -/
def oNonblock : BitVec 32 := 0x0400

/-- `O_RDONLY`. -/
def oRdonly : BitVec 32 := 0x2000

/-- `O_WRONLY`. -/
def oWronly : BitVec 32 := 0x8000

/-- `O_RDWR`. -/
def oRdwr : BitVec 32 := 0xa000

/-- `posixconfigMQ_NAME_LEN_MAX`. -/
def mqNameLenMax : ℕ := 16

/-- `posixconfigMQ_MAX_MESSAGES`. -/
def mqMaxMessages : BitVec 32 := 10

/-- `posixconfigMQ_MAX_SIZE`. -/
def mqMaxSize : BitVec 32 := 128

/-- `DELAY_MIN_TICK`. -/
def delayMinTick : ℕ := 1

/-- What the library is built for: the width of `TickType_t`, and whether a store through a
null pointer lands in memory, as without protection, or traps. -/
structure MqConfig where
  tickWidth : ℕ
  nullMapped : Bool
  deriving DecidableEq, Repr

/-! ## Queues -/

/-- `mq_attr_t`. -/
structure MqAttr where
  mqFlags : BitVec 32
  mqMaxmsg : BitVec 32
  mqMsgsize : BitVec 32
  mqCurmsgs : BitVec 32
  deriving DecidableEq, Repr

/-- `mqd_section_t`. -/
structure MqdSection where
  id : ℕ
  mqName : List UInt8
  attr : MqAttr
  kernelBuff : ℕ
  deriving DecidableEq, Repr

/-- What the memory holds at an address, read as a section. -/
abbrev Sections := ℕ → MqdSection

/-! ## The outside -/

/-- The calls on `g_mq_mutex` and on its attributes. -/
inductive PthreadCall
  | mutexattrInit
  | mutexInit
  | mutexattrDestroy
  | mutexDestroy
  | mutexLock
  | mutexUnlock
  deriving DecidableEq, Repr

/-- The super calls that concern queues. -/
inductive SuperCall
  | mqOpen (size : BitVec 32)
  | mqClose (id : ℕ)
  | mqSend (id size msgPrio : ℕ)
  | mqReceive (id size : ℕ)
  deriving DecidableEq, Repr

/-- `sret_t`. -/
structure SRet where
  p : ℕ
  size : ℕ
  status : StatusCode
  deriving DecidableEq, Repr

/-- What a call does to its surroundings, in order. -/
inductive Event
  | pthread (call : PthreadCall)
  | superCall (call : SuperCall) (status : StatusCode)
  | memcpy (dest src size : ℕ)
  | reset (address : ℕ)
  | delay (ticks : ℕ)
  deriving DecidableEq, Repr

/-- The answers that one call gets: to what it asks of the mutex, which it asks at most once
each, and to its super calls, which are counted. -/
structure World where
  pthread : PthreadCall → StatusCode
  kernel : ℕ → SRet

namespace Event

def isSuperCall : Event → Bool
  | .superCall _ _ => true
  | _ => false

/-- A super call that took a message to or from the kernel. -/
def transfers : Event → Bool
  | .superCall (.mqSend _ _ _) status => status == success
  | .superCall (.mqReceive _ _) status => status == success
  | _ => false

end Event

/-- `super_call`. -/
def superCall (world : World) (call : SuperCall) (log : List Event) : SRet × List Event :=
  let answer := world.kernel (log.countP Event.isSuperCall)
  (answer, log ++ [.superCall call answer.status])

/-! ## Static functions -/

/-- `s_find_queue_in_desc_list`. -/
def sFindQueueInDescList (_name : Option (List UInt8)) (_mqdes : ℕ) : StatusCode := success

/-- `s_queue_write`. -/
def sQueueWrite (world : World) (queue : MqdSection) (buff size msgPrio : ℕ)
    (log : List Event) : StatusCode × List Event :=
  if queue.attr.mqFlags &&& oRdonly ≠ 0 then
    let (answer, log) := superCall world (.mqSend queue.id size msgPrio)
      (log ++ [.memcpy queue.kernelBuff buff size])
    if answer.status = success then (success, log) else (errorFileDesc, log)
  else
    (errorFuncInval, log)

/-- `s_queue_read`. -/
def sQueueRead (world : World) (queue : MqdSection) (buff size : ℕ)
    (log : List Event) : StatusCode × List Event :=
  if queue.attr.mqFlags &&& oWronly ≠ 0 then
    let (answer, log) := superCall world (.mqReceive queue.id size) log
    if answer.status = success then (success, log ++ [.memcpy buff queue.kernelBuff size])
    else (errorFileDesc, log)
  else
    (errorFuncInval, log)

/-- `s_mq_lock_init`. -/
def sMqLockInit (world : World) (log : List Event) : StatusCode × List Event :=
  (world.pthread .mutexInit, log ++ [.pthread .mutexattrInit, .pthread .mutexInit])

/-- `s_mq_lock_deinit`. -/
def sMqLockDeinit (world : World) (log : List Event) : StatusCode × List Event :=
  (world.pthread .mutexDestroy, log ++ [.pthread .mutexattrDestroy, .pthread .mutexDestroy])

/-- `s_mq_acquire_lock`. -/
def sMqAcquireLock (world : World) (log : List Event) : StatusCode × List Event :=
  (world.pthread .mutexLock, log ++ [.pthread .mutexLock])

/-- `s_mq_release_lock`. -/
def sMqReleaseLock (world : World) (log : List Event) : StatusCode × List Event :=
  (world.pthread .mutexUnlock, log ++ [.pthread .mutexUnlock])

/-- `UTILS_strnlen`. -/
def utilsStrnlen (pcString : Option (List UInt8)) (xMaxLength : ℕ) : ℕ :=
  match pcString with
  | none => 0
  | some characters => min characters.length xMaxLength

/-! ## Opening and closing -/

/-- The attributes that `mq_open` writes over `old`. -/
def openAttr (old : MqAttr) (oflag : BitVec 32) (attr : Option MqAttr) : MqAttr :=
  let filled := match attr with
    | some attr => attr
    | none => { old with mqMaxmsg := mqMaxMessages, mqMsgsize := mqMaxSize }
  { filled with mqFlags := oflag }

/-- `mq_open` once it has the lock: the section is filled, and the kernel asked for a queue. -/
def mqOpenLocked (world : World) (sections : Sections) (pMqdSection : ℕ) (name : List UInt8)
    (nameLen : ℕ) (oflag : BitVec 32) (attr : Option MqAttr) (log : List Event) :
    ℕ × Sections × List Event :=
  let old := sections pMqdSection
  let opened := { old with attr := openAttr old.attr oflag attr }
  let (answer, log) :=
    superCall world (.mqOpen (opened.attr.mqMaxmsg * opened.attr.mqMsgsize)) log
  let (descriptor, queue) :=
    if answer.status ≠ success then (errorFuncInval, opened)
    else
      (pMqdSection, { opened with
        id := answer.size
        kernelBuff := answer.p
        mqName := name ++ opened.mqName.drop nameLen })
  let sections := fun address => if address = pMqdSection then queue else sections address
  let (status, log) := sMqReleaseLock world log
  if status ≠ success then (errorDeviceBusy, sections, log) else (descriptor, sections, log)

/-- `mq_open`: the descriptor or the status that it returns in its place. -/
def mqOpen (config : MqConfig) (world : World) (sections : Sections)
    (name : Option (List UInt8)) (oflag : BitVec 32) (attr : Option MqAttr) :
    Run (ℕ × Sections × List Event) :=
  let nameLen := utilsStrnlen name mqNameLenMax
  match name with
  | none => .done (errorFuncInvalArg, sections, [])
  | some name =>
      if ¬ nameLen < mqNameLenMax then .done (errorFuncInvalArg, sections, [])
      else if sFindQueueInDescList (some name) 0 ≠ success then
        .done (errorFileNotFound, sections, [])
      else if oflag &&& oCreat = 0 then .done (errorFileNotFound, sections, [])
      else
        -- the status of the initialisation is kept in the pointer to the section
        let (pMqdSection, log) := sMqLockInit world []
        if pMqdSection ≠ success then .done (pMqdSection, sections, log)
        else
          let (status, log) := sMqAcquireLock world log
          if status ≠ success then .done (errorDeviceBusy, sections, log)
          else if pMqdSection = 0 ∧ config.nullMapped = false then .fault .nullDeref
          else .done (mqOpenLocked world sections pMqdSection name nameLen oflag attr log)

/-- `mq_close`. -/
def mqClose (world : World) (sections : Sections) (mqdes : ℕ) :
    StatusCode × Sections × List Event :=
  if mqdes = 0 then (errorFuncInvalArg, sections, [])
  else
    let (status, log) := sMqAcquireLock world []
    if status ≠ success then (errorDeviceBusy, sections, log)
    else
      let (err, sections, log) :=
        if sFindQueueInDescList none mqdes = success then
          let closed := { sections mqdes with attr := ⟨0, 0, 0, 0⟩ }
          let (answer, log) := superCall world (.mqClose closed.id) log
          (if answer.status ≠ success then errorFuncInval else success,
            fun address => if address = mqdes then closed else sections address, log)
        else (errorFileDesc, sections, log)
      let (status, log) := sMqReleaseLock world log
      if status ≠ success then (errorDeviceBusy, sections, log)
      else
        let (_, log) := sMqLockDeinit world log
        (err, sections, log)

/-- `mq_getattr`: the status, and what is copied to the caller. -/
def mqGetattr (sections : Sections) (mqdes : ℕ) : StatusCode × Option MqAttr :=
  if mqdes = 0 then (errorFuncInvalArg, none) else (success, some (sections mqdes).attr)

/-! ## Transfers -/

/-- The locals of `mq_timedsend` and of `mq_timedreceive`, and what was done so far. -/
structure TimedTransfer where
  err : StatusCode
  absTicks : ℕ
  log : List Event
  deriving DecidableEq, Repr

/-- The body of their loop and its condition, around `s_queue_write` or `s_queue_read`. -/
def transferTurn (attempt : List Event → StatusCode × List Event) (mqFlags : BitVec 32)
    (transfer : TimedTransfer) : Turn TimedTransfer TimedTransfer :=
  let (status, log) := attempt transfer.log
  if status = success then
    .exit { transfer with log := log }
  else
    let absTicks := if mqFlags &&& oNonblock ≠ 0 then rstVal else transfer.absTicks
    let counted : TimedTransfer :=
      if absTicks = rstVal then ⟨errorNetConTimeout, absTicks, log⟩
      else ⟨transfer.err, absTicks - 1, log ++ [.delay delayMinTick]⟩
    if rstVal < counted.absTicks then .next counted else .exit counted

/-- What they do once they know their ticks. -/
def transferWithin (world : World) (attempt : List Event → StatusCode × List Event)
    (mqFlags : BitVec 32) (mqdes absTicks : ℕ) (log : List Event) (fuel : ℕ) :
    Run (StatusCode × List Event) :=
  let (status, log) := sMqAcquireLock world log
  if status ≠ success then .done (errorDeviceBusy, log)
  else do
    let transfer ←
      if sFindQueueInDescList none mqdes ≠ success then .done ⟨errorFileDesc, absTicks, log⟩
      else
        loop (fun transfer => .done (transferTurn attempt mqFlags transfer)) fuel
          ⟨success, absTicks, log⟩
    let (status, log) := sMqReleaseLock world transfer.log
    if status ≠ success then return (errorDeviceBusy, log) else return (transfer.err, log)

/-- `mq_timedsend`. -/
def mqTimedsend (config : MqConfig) (world : World) (sections : Sections)
    (mqdes msgPtr msgLen msgPrio : ℕ) (abstime : Option Timespec) (fuel : ℕ) :
    Run (StatusCode × List Event) :=
  if mqdes = 0 ∨ msgPtr = 0 ∨ msgLen = 0 then .done (errorFuncInvalArg, [])
  else
    match absTicks config.tickWidth abstime with
    | .error status => .done (status, [])
    | .ok ticks =>
        transferWithin world (sQueueWrite world (sections mqdes) msgPtr msgLen msgPrio)
          (sections mqdes).attr.mqFlags mqdes ticks [] fuel

/-- `mq_timedreceive`. -/
def mqTimedreceive (config : MqConfig) (world : World) (sections : Sections)
    (mqdes msgPtr msgLen msgPrio : ℕ) (abstime : Option Timespec) (fuel : ℕ) :
    Run (StatusCode × List Event) :=
  if mqdes = 0 ∨ msgPtr = 0 ∨ msgLen = 0 then .done (errorFuncInvalArg, [])
  else if msgPrio = 0 ∧ config.nullMapped = false then .fault .nullDeref
  else
    match absTicks config.tickWidth abstime with
    | .error status => .done (status, [.reset msgPrio])
    | .ok ticks =>
        transferWithin world (sQueueRead world (sections mqdes) msgPtr msgLen)
          (sections mqdes).attr.mqFlags mqdes ticks [.reset msgPrio] fuel

/-- `mq_send`. -/
def mqSend (config : MqConfig) (world : World) (sections : Sections)
    (mqdes msgPtr msgLen msgPrio : ℕ) (fuel : ℕ) : Run (StatusCode × List Event) :=
  mqTimedsend config world sections mqdes msgPtr msgLen msgPrio none fuel

/-- `mq_receive`. -/
def mqReceive (config : MqConfig) (world : World) (sections : Sections)
    (mqdes msgPtr msgLen msgPrio : ℕ) (fuel : ℕ) : Run (StatusCode × List Event) :=
  mqTimedreceive config world sections mqdes msgPtr msgLen msgPrio none fuel

end Cyancore.Posix
