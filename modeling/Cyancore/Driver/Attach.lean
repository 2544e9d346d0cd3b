/-
# Attaching drivers to their layers

A layer of the kernel keeps a pointer to the driver below it and a flag that its
operations test before they follow the pointer.  The interrupt controller, the console
and the logger share one protocol: the flag is cleared before anything else and set only
for a driver that came up.  The watchdog leaves the flag alone when it is given no
driver, and the schedule clock sets it whatever became of the driver.
-/

import Cyancore.Basic
import Mathlib.Data.List.Basic
import Mathlib.Data.List.Induction

namespace Cyancore.Driver

open Cyancore.Math

variable {δ : Type} {n : ℕ}

/-- The driver pointer and the flag of a layer. -/
structure Attachment (δ : Type) where
  /-- The driver below, which may be NULL. -/
  port : Option δ
  /-- The flag that guards the operations. -/
  attached : Bool
  deriving DecidableEq, Repr

/-- No driver. -/
def Attachment.detached : Attachment δ := ⟨none, false⟩

/-! ## The layers -/

/-- Link a driver that has reported `devStatus`, and combine with what the registrations
return. -/
def linkDevice (registered devStatus : StatusCode) (driver : Option δ) :
    StatusCode × Attachment δ :=
  match driver with
  | some driver => (devStatus ||| registered, ⟨some driver, devStatus = StatusCode.success⟩)
  | none => (StatusCode.errorDeviceInval, ⟨none, false⟩)

/-- `stdin_register`, `stdout_register`, `stderr_register` and `stdlog_register`, by the
function that they are given. -/
def stdRegister {η : Type} (function : Option η) : StatusCode :=
  if function.isNone then StatusCode.errorDeviceInval else StatusCode.success

/-- The functions that the console and the logger register. -/
inductive StdFunction
  | consolePutc
  | consoleGetc
  | loggerPutc

/-- `ic_attach_device`. -/
def icAttachDevice (devStatus : StatusCode) (pic : Option δ) (_ic : Attachment δ) :
    StatusCode × Attachment δ :=
  linkDevice StatusCode.success devStatus pic

/-- `console_attach_device`. -/
def consoleAttachDevice (devStatus : StatusCode) (pcon : Option δ) (_con : Attachment δ) :
    StatusCode × Attachment δ :=
  linkDevice
    (StatusCode.orAll [stdRegister (some StdFunction.consolePutc),
      stdRegister (some StdFunction.consolePutc), stdRegister (some StdFunction.consoleGetc)])
    devStatus pcon

/-- `logger_attach_device`. -/
def loggerAttachDevice (devStatus : StatusCode) (pcon : Option δ) (_log : Attachment δ) :
    StatusCode × Attachment δ :=
  linkDevice (stdRegister (some StdFunction.loggerPutc)) devStatus pcon

/-- `wdog_attach_device` on a core: without a driver the flag stays as it is. -/
def wdogAttachDevice (devStatus : StatusCode) (pwdog : Option δ) (wdog : Attachment δ) :
    StatusCode × Attachment δ :=
  match pwdog with
  | some driver => (devStatus, ⟨some driver, devStatus = StatusCode.success⟩)
  | none => (StatusCode.errorDeviceInval, ⟨none, wdog.attached⟩)

/-- `schedclk_attach_device` on a core: any driver sets the flag. -/
def schedclkAttachDevice (devStatus : StatusCode) (ptmr : Option δ) (clk : Attachment δ) :
    StatusCode × Attachment δ :=
  match ptmr with
  | some driver => (devStatus, ⟨some driver, true⟩)
  | none => (StatusCode.errorDeviceInval, ⟨none, clk.attached⟩)

/-- `ic_release_device`, `console_release_device`, `logger_release_device`,
`wdog_release_device` and `schedclk_release_device`. -/
def releaseDevice (_layer : Attachment δ) : StatusCode × Attachment δ :=
  (StatusCode.success, .detached)

/-- An operation under the guard: it follows the pointer only if the flag is set. -/
def guarded {α : Type} (fallback : α) (method : δ → α) (layer : Attachment δ) : Run α :=
  if layer.attached then
    match layer.port with
    | some driver => .done (method driver)
    | none => .fault .nullDeref
  else .done fallback

/-- `ic_get_irq`. -/
def icGetIrq (getIrq : δ → ℕ) : Attachment δ → Run ℕ := guarded 0 getIrq

/-- `console_putc`, and `logger_putc`: the method of the driver may be missing. -/
def consolePutc (write : δ → Option (Char → StatusCode)) (c : Char) :
    Attachment δ → Run StatusCode :=
  guarded StatusCode.errorFuncInval
    fun driver => ((write driver).map fun write => write c).getD StatusCode.errorFuncInval

/-- `wdog_hush`. -/
def wdogHush (hush : δ → Option Unit) : Attachment δ → Run StatusCode :=
  guarded StatusCode.errorFuncInval
    fun driver => ((hush driver).map fun _ => StatusCode.success).getD StatusCode.errorFuncInval

/-- `get_timestamp`. -/
def getTimestamp (readTime : δ → ℕ) : Attachment δ → Run (StatusCode × ℕ) :=
  guarded (StatusCode.errorDriverInitFailed, 0) fun driver => (StatusCode.success, readTime driver)

/-! ## Histories -/

/-- A call of the layer. -/
inductive AttachOp (δ : Type)
  | attach (devStatus : StatusCode) (driver : Option δ)
  | release
  deriving DecidableEq, Repr

/-- The attaching function of a layer. -/
abbrev AttachDevice (δ : Type) :=
  StatusCode → Option δ → Attachment δ → StatusCode × Attachment δ

/-- One call. -/
def AttachOp.apply (attachDevice : AttachDevice δ) (layer : Attachment δ) :
    AttachOp δ → Attachment δ
  | .attach devStatus driver => (attachDevice devStatus driver layer).2
  | .release => (releaseDevice layer).2

/-- The layer after a sequence of calls. -/
def attachRun (attachDevice : AttachDevice δ) (ops : List (AttachOp δ)) : Attachment δ :=
  ops.foldl (AttachOp.apply attachDevice) .detached

/-- A layer with a pointer and a flag for each core, after calls made on any of them. -/
def attachRunOn (attachDevice : AttachDevice δ) (calls : List (Fin n × AttachOp δ)) :
    Fin n → Attachment δ :=
  calls.foldl
    (fun layers call =>
      Function.update layers call.1 (call.2.apply attachDevice (layers call.1)))
    fun _ => .detached

/-- The calls made on one core. -/
def callsOn (core : Fin n) (calls : List (Fin n × AttachOp δ)) : List (AttachOp δ) :=
  (calls.filter (·.1 = core)).map Prod.snd

/-- Remember the status of an attach. -/
def AttachOp.noteStatus (last : Option StatusCode) : AttachOp δ → Option StatusCode
  | .attach devStatus _ => some devStatus
  | .release => last

/-- Remember an attach until the next release. -/
def AttachOp.noteAttach (since : List (StatusCode × Option δ)) :
    AttachOp δ → List (StatusCode × Option δ)
  | .attach devStatus driver => since ++ [(devStatus, driver)]
  | .release => []

/-- The status given with the most recent attach. -/
def lastStatus (ops : List (AttachOp δ)) : Option StatusCode := ops.foldl AttachOp.noteStatus none

/-- The attaches since the last release. -/
def sinceRelease (ops : List (AttachOp δ)) : List (StatusCode × Option δ) :=
  ops.foldl AttachOp.noteAttach []

/-- The attaches since the last release that were given a driver. -/
def linkedSinceRelease (ops : List (AttachOp δ)) : List (StatusCode × Option δ) :=
  (sinceRelease ops).filter (·.2.isSome)

/-- The flag is set only over a driver that came up at the most recent attach. -/
def Attachment.Sound (layer : Attachment δ) (ops : List (AttachOp δ)) : Prop :=
  layer.attached = true → layer.port.isSome ∧ lastStatus ops = some StatusCode.success

/-- No NULL was attached over a watchdog that had come up. -/
def WdogGuarded (ops : List (AttachOp δ)) : Prop :=
  ∀ attach ∈ (sinceRelease ops).getLast?, attach.2 = none →
    ∀ linked ∈ (linkedSinceRelease ops).getLast?, linked.1 ≠ StatusCode.success

/-- The most recent attach was given a clock that had come up, or none was given a clock. -/
def SchedclkGuarded (ops : List (AttachOp δ)) : Prop :=
  linkedSinceRelease ops ≠ [] →
    ∀ attach ∈ (sinceRelease ops).getLast?, attach.2.isSome ∧ attach.1 = StatusCode.success

/-! ## One more call -/

section Concat

variable {attachDevice : AttachDevice δ} {ops : List (AttachOp δ)} {devStatus : StatusCode}
  {driver : Option δ}

theorem attachRun_concat (op : AttachOp δ) :
    attachRun attachDevice (ops ++ [op]) = op.apply attachDevice (attachRun attachDevice ops) := by
  rw [attachRun, List.foldl_concat, attachRun]

@[simp]
theorem attachRun_attach :
    attachRun attachDevice (ops ++ [.attach devStatus driver]) =
      (attachDevice devStatus driver (attachRun attachDevice ops)).2 :=
  attachRun_concat _

@[simp]
theorem attachRun_release : attachRun attachDevice (ops ++ [.release]) = .detached :=
  attachRun_concat _

@[simp]
theorem lastStatus_attach : lastStatus (ops ++ [.attach devStatus driver]) = some devStatus := by
  rw [lastStatus, List.foldl_concat, AttachOp.noteStatus]

@[simp]
theorem sinceRelease_attach :
    sinceRelease (ops ++ [.attach devStatus driver]) =
      sinceRelease ops ++ [(devStatus, driver)] := by
  rw [sinceRelease, List.foldl_concat, AttachOp.noteAttach, sinceRelease]

@[simp]
theorem sinceRelease_release : sinceRelease (ops ++ [.release]) = [] := by
  rw [sinceRelease, List.foldl_concat, AttachOp.noteAttach]

@[simp]
theorem linkedSinceRelease_attach_some (linked : δ) :
    linkedSinceRelease (ops ++ [.attach devStatus (some linked)]) =
      linkedSinceRelease ops ++ [(devStatus, some linked)] := by
  simp [linkedSinceRelease, List.filter_append]

@[simp]
theorem linkedSinceRelease_attach_none :
    linkedSinceRelease (ops ++ [.attach devStatus none]) = linkedSinceRelease ops := by
  simp [linkedSinceRelease, List.filter_append]

@[simp]
theorem linkedSinceRelease_release : linkedSinceRelease (ops ++ [.release]) = [] := by
  simp [linkedSinceRelease]

/-- A history is empty, or ends in a release or in an attach with or without a driver. -/
@[elab_as_elim]
theorem history_induction {motive : List (AttachOp δ) → Prop} (ops : List (AttachOp δ))
    (nil : motive [])
    (release : ∀ ops, motive ops → motive (ops ++ [.release]))
    (linked : ∀ ops devStatus driver, motive ops →
      motive (ops ++ [.attach devStatus (some driver)]))
    (unlinked : ∀ ops devStatus, motive ops → motive (ops ++ [.attach devStatus none])) :
    motive ops := by
  induction ops using List.reverseRecOn with
  | nil => exact nil
  | append_singleton ops op ih =>
      cases op with
      | release => exact release ops ih
      | attach devStatus driver =>
          cases driver with
          | none => exact unlinked ops devStatus ih
          | some driver => exact linked ops devStatus driver ih

/-- Calls on other cores leave the layer of a core alone. -/
theorem attachRunOn_eq (calls : List (Fin n × AttachOp δ)) (core : Fin n) :
    attachRunOn attachDevice calls core = attachRun attachDevice (callsOn core calls) := by
  induction calls using List.reverseRecOn with
  | nil => rfl
  | append_singleton calls call ih =>
      rw [attachRunOn, List.foldl_concat, callsOn, List.filter_append, List.map_append]
      by_cases hcore : call.1 = core
      · subst hcore
        rw [Function.update_self, List.filter_cons_of_pos (by simp), List.filter_nil,
          List.map_singleton, attachRun_concat]
        exact congrArg (AttachOp.apply attachDevice · call.2) ih
      · rw [Function.update_of_ne (Ne.symm hcore), List.filter_cons_of_neg (by simpa using hcore),
          List.filter_nil, List.map_nil, List.append_nil]
        exact ih

end Concat

/-! ## What the flag says -/

variable {ops : List (AttachOp δ)}

/-- No attach, no driver. -/
theorem sound_detached : (Attachment.detached : Attachment δ).Sound ops := by
  intro hattached
  cases hattached

/-- A layer that clears its flag first is sound after every sequence of calls. -/
theorem sound_of_linkDevice {attachDevice : AttachDevice δ} {registered : StatusCode}
    (hlink : ∀ devStatus driver layer,
      attachDevice devStatus driver layer = linkDevice registered devStatus driver) :
    (attachRun attachDevice ops).Sound ops := by
  induction ops using history_induction with
  | nil => exact sound_detached
  | release ops _ =>
      rw [attachRun_release]
      exact sound_detached
  | linked ops devStatus driver _ =>
      rw [attachRun_attach, hlink]
      intro hattached
      refine ⟨rfl, ?_⟩
      rw [lastStatus_attach, of_decide_eq_true hattached]
  | unlinked ops devStatus _ =>
      rw [attachRun_attach, hlink]
      intro hattached
      cases hattached

/-- A watchdog follows the attaches that were given a driver. -/
theorem wdog_attached :
    (attachRun wdogAttachDevice ops).attached =
      (linkedSinceRelease ops).getLast?.any (·.1 = StatusCode.success) := by
  induction ops using history_induction with
  | nil => rfl
  | release ops _ => simp [Attachment.detached]
  | linked ops devStatus driver _ => simp [wdogAttachDevice]
  | unlinked ops devStatus ih => simpa [wdogAttachDevice] using ih

/-- A schedule clock counts as attached from the first driver on. -/
theorem schedclk_attached :
    (attachRun schedclkAttachDevice ops).attached = !(linkedSinceRelease ops).isEmpty := by
  induction ops using history_induction with
  | nil => rfl
  | release ops _ => simp [Attachment.detached]
  | linked ops devStatus driver _ => simp [schedclkAttachDevice]
  | unlinked ops devStatus ih => simpa [schedclkAttachDevice] using ih

/-- The watchdog is sound unless NULL was attached over a driver that had come up. -/
theorem wdog_sound_iff : (attachRun wdogAttachDevice ops).Sound ops ↔ WdogGuarded ops := by
  induction ops using history_induction with
  | nil => exact iff_of_true sound_detached (by simp [WdogGuarded, sinceRelease])
  | release ops _ =>
      rw [attachRun_release]
      exact iff_of_true sound_detached (by simp [WdogGuarded])
  | linked ops devStatus driver _ => simp [WdogGuarded, Attachment.Sound, wdogAttachDevice]
  | unlinked ops devStatus _ =>
      rw [Attachment.Sound, wdog_attached]
      simp [WdogGuarded, wdogAttachDevice, Option.any_eq_false]

/-- The schedule clock is sound only after an attach that succeeded, or before any. -/
theorem schedclk_sound_iff :
    (attachRun schedclkAttachDevice ops).Sound ops ↔ SchedclkGuarded ops := by
  induction ops using history_induction with
  | nil =>
      exact iff_of_true sound_detached (by simp [SchedclkGuarded, linkedSinceRelease, sinceRelease])
  | release ops _ =>
      rw [attachRun_release]
      exact iff_of_true sound_detached (by simp [SchedclkGuarded])
  | linked ops devStatus driver _ =>
      rw [Attachment.Sound, schedclk_attached]
      simp [SchedclkGuarded, schedclkAttachDevice]
  | unlinked ops devStatus _ =>
      rw [Attachment.Sound, schedclk_attached]
      simp [SchedclkGuarded, schedclkAttachDevice]

/-- An operation of a sound layer never follows NULL. -/
theorem guarded_returns {α : Type} {layer : Attachment δ} (hsound : layer.Sound ops)
    (fallback : α) (method : δ → α) : ∃ result, guarded fallback method layer = .done result := by
  rw [guarded]
  split
  · rename_i hattached
    obtain ⟨driver, hport⟩ := Option.isSome_iff_exists.mp (hsound hattached).1
    exact ⟨method driver, by rw [hport]⟩
  · exact ⟨fallback, rfl⟩

/-- The interrupt controller answers after any calls, with zero if it has no driver. -/
theorem icGetIrq_returns (getIrq : δ → ℕ) :
    ∃ irq, icGetIrq getIrq (attachRun icAttachDevice ops) = .done irq :=
  guarded_returns (sound_of_linkDevice fun _ _ _ => rfl) 0 getIrq

/-- The console answers after any calls, with an error if it cannot write. -/
theorem consolePutc_returns (write : δ → Option (Char → StatusCode)) (c : Char) :
    ∃ status, consolePutc write c (attachRun consoleAttachDevice ops) = .done status :=
  guarded_returns (sound_of_linkDevice fun _ _ _ => rfl) _ _

/-- The interrupt controller, the console and the logger are sound after every sequence of
calls; a watchdog and a schedule clock are sound on a core exactly when the calls on that core
have kept to the condition of their layer. -/
theorem attach_sound_iff (ops : List (AttachOp δ)) (calls : List (Fin n × AttachOp δ))
    (core : Fin n) :
    (attachRun icAttachDevice ops).Sound ops ∧ (attachRun consoleAttachDevice ops).Sound ops ∧
      (attachRun loggerAttachDevice ops).Sound ops ∧
      ((attachRunOn wdogAttachDevice calls core).Sound (callsOn core calls) ↔
        WdogGuarded (callsOn core calls)) ∧
      ((attachRunOn schedclkAttachDevice calls core).Sound (callsOn core calls) ↔
        SchedclkGuarded (callsOn core calls)) := by
  rw [attachRunOn_eq, attachRunOn_eq]
  exact ⟨sound_of_linkDevice fun _ _ _ => rfl, sound_of_linkDevice fun _ _ _ => rfl,
    sound_of_linkDevice fun _ _ _ => rfl, wdog_sound_iff, schedclk_sound_iff⟩

/-- NULL attached over a watchdog leaves the flag set, and the next operation follows it; a
schedule clock that did not come up is attached all the same. -/
theorem attach_not_sound :
    let core : Fin 1 := ⟨0, Nat.one_pos⟩
    let wdogCalls : List (Fin 1 × AttachOp Unit) :=
      [(core, .attach StatusCode.success (some ())), (core, .attach StatusCode.success none)]
    let clkCalls : List (Fin 1 × AttachOp Unit) :=
      [(core, .attach StatusCode.errorDriver (some ()))]
    (¬ (attachRunOn wdogAttachDevice wdogCalls core).Sound (callsOn core wdogCalls) ∧
        wdogHush some (attachRunOn wdogAttachDevice wdogCalls core) = .fault .nullDeref) ∧
      ¬ (attachRunOn schedclkAttachDevice clkCalls core).Sound (callsOn core clkCalls) := by
  refine ⟨⟨fun hsound => ?_, rfl⟩, fun hsound => ?_⟩
  · exact absurd (hsound rfl).1 (by decide)
  · exact absurd (hsound rfl).2 (by decide)

end Cyancore.Driver
