/-
# The life of a device

Over any sequence of calls of the driver interface, the flag `exec` of a device says
which of its two callbacks was invoked last.  It does not say how that ended: the flag
is set before `driver_setup` runs and stays set when it fails, so a device that failed
to start counts as started, is not set up again, and is stopped on request.
-/

import Cyancore.Driver.Order
import Cyancore.Math.Transition

namespace Cyancore.Driver

open Cyancore.Math

variable {n : ℕ} {ω : Type} {state state' : DriverState n ω} {callback : Callback}

/-- The calls of the driver interface. -/
inductive DriverOp (n : ℕ)
  | register (ptr : Fin n)
  | deregister (ptr : Fin n)
  | setup (name : String)
  | exit (name : String)
  | setupAll
  | exitAll

def DriverOp.run : DriverOp n → DriverState n ω → StatusCode × DriverState n ω
  | .register ptr => driverRegister ptr
  | .deregister ptr => driverDeregister ptr
  | .setup name => driverSetup name
  | .exit name => driverExit name
  | .setupAll => driverSetupAll
  | .exitAll => driverExitAll

/-- Any calls on a table of devices that have not been started. -/
def driverSystem (n : ℕ) (ω : Type) : TransitionSystem (DriverState n ω) (DriverOp n) where
  init state := (∀ ptr, (state.table ptr).exec = false) ∧ state.calls = []
  step op state state' := (op.run state).2 = state'

/-- The last call that invoked a callback of the device. -/
def DriverState.lastInvoked (state : DriverState n ω) (ptr : Fin n) : Option (Call n) :=
  (state.calls.filter fun call => call.dev = ptr && call.invoked).getLast?

/-- The flag is set exactly when the most recent `driver_setup` of the device returned success
and its `driver_exit` has not run since. -/
def ExecTracks (state : DriverState n ω) (ptr : Fin n) : Prop :=
  (state.table ptr).exec = true ↔ ∃ call, state.lastInvoked ptr = some call ∧
    call.callback = .setup ∧ call.result = StatusCode.success

/-- What the flag does say: which callback was invoked last. -/
def ExecFollows (state : DriverState n ω) (ptr : Fin n) : Prop :=
  (state.table ptr).exec = true ↔
    ∃ call, state.lastInvoked ptr = some call ∧ call.callback = .setup

/-! ## One call -/

theorem lastInvoked_of_append {call : Call n} (hcalls : state'.calls = state.calls ++ [call])
    (ptr : Fin n) :
    state'.lastInvoked ptr =
      if call.dev = ptr ∧ call.invoked = true then some call else state.lastInvoked ptr := by
  rw [DriverState.lastInvoked, hcalls, List.filter_append]
  split
  · rename_i hcall
    simp [List.filter, hcall]
  · rename_i hcall
    have hnil : [call].filter (fun call => call.dev = ptr && call.invoked) = [] := by
      simpa [List.filter_eq_nil_iff] using hcall
    rw [hnil, List.append_nil, DriverState.lastInvoked]

/-- After a call on a device that is not `percpu` the flag says which call it was. -/
theorem callDevice_exec {dev : Device ω} (hpercpu : dev.percpu = false) (world : ω) :
    (callDevice callback dev world).2.1.exec = decide (callback = .setup) := by
  cases callback with
  | setup =>
      cases hexec : dev.exec <;>
        simp [callDevice, registerDevice, Device.flag, Device.setExec, hpercpu, hexec]
  | exit =>
      cases hexec : dev.exec <;>
        simp [callDevice, deregisterDevice, Device.flag, Device.setExec, hpercpu, hexec]

/-- A call that invokes nothing finds the flag as it would leave it. -/
theorem exec_of_not_invokes {dev : Device ω} (hpercpu : dev.percpu = false)
    (hinvokes : dev.invokes callback = false) : dev.exec = decide (callback = .setup) := by
  cases callback with
  | setup => simpa [Device.invokes, hpercpu] using hinvokes
  | exit => simpa [Device.invokes, hpercpu] using hinvokes

theorem calls_callDriver (callback : Callback) (ptr : Fin n) (state : DriverState n ω) :
    (callDriver callback ptr state).2.calls = state.calls ++
      [⟨ptr, callback, (state.table ptr).invokes callback, (callDriver callback ptr state).1⟩] := by
  rw [← callDevice_invoked callback (state.table ptr) state.world]
  rfl

theorem ExecFollows.callDriver {other : Fin n} (hfollows : ExecFollows state other)
    (hpercpu : (state.table other).percpu = false) (callback : Callback) (ptr : Fin n) :
    ExecFollows (Driver.callDriver callback ptr state).2 other := by
  rw [ExecFollows, lastInvoked_of_append (calls_callDriver callback ptr state)]
  by_cases heq : ptr = other
  · subst heq
    have hself : (Driver.callDriver callback ptr state).2.table ptr =
        (callDevice callback (state.table ptr) state.world).2.1 := Function.update_self ..
    rw [hself, callDevice_exec hpercpu]
    cases hinvokes : (state.table ptr).invokes callback with
    | true => simp
    | false =>
        rw [← exec_of_not_invokes hpercpu hinvokes, if_neg (by simp)]
        exact hfollows
  · rw [callDriver_table_of_ne (Ne.symm heq), if_neg fun h => heq h.1]
    exact hfollows

/-! ## Any sequence of calls -/

/-- The flags of all devices that are not `percpu` follow the calls. -/
def AllFollow (state : DriverState n ω) : Prop :=
  ∀ ptr, (state.table ptr).percpu = false → ExecFollows state ptr

theorem AllFollow.callDriver (hall : AllFollow state) (callback : Callback) (ptr : Fin n) :
    AllFollow (Driver.callDriver callback ptr state).2 := by
  intro other hpercpu
  rw [callDriver_read (·.percpu) fun _ _ => rfl] at hpercpu
  exact (hall other hpercpu).callDriver hpercpu callback ptr

theorem AllFollow.callEach (hall : AllFollow state) (callback : Callback) (ptrs : List (Fin n))
    (ret : StatusCode) : AllFollow (Driver.callEach callback ptrs (ret, state)).2 := by
  induction ptrs generalizing state ret with
  | nil => exact hall
  | cons ptr ptrs ih => exact ih (hall.callDriver callback ptr) _

theorem AllFollow.firstWithName (hall : AllFollow state) (callback : Callback) (name : String) :
    AllFollow (Driver.firstWithName (Driver.callDriver callback) name state).2 := by
  unfold Driver.firstWithName
  split
  · exact hall.callDriver callback _
  · exact hall

theorem AllFollow.run (hall : AllFollow state) (op : DriverOp n) : AllFollow (op.run state).2 := by
  cases op with
  | register ptr => exact hall.callDriver .setup ptr
  | deregister ptr => exact hall.callDriver .exit ptr
  | setup name => exact hall.firstWithName .setup name
  | exit name => exact hall.firstWithName .exit name
  | setupAll =>
      rw [DriverOp.run, driverSetupAll_eq]
      exact hall.callEach .setup _ _
  | exitAll =>
      rw [DriverOp.run, driverExitAll_eq]
      exact hall.callEach .exit _ _

theorem allFollow_of_reachable (hreach : (driverSystem n ω).Reachable (fun _ _ => True) state) :
    AllFollow state := by
  apply hreach.invariant AllFollow
  · rintro state ⟨hexec, hcalls⟩ ptr -
    simp [ExecFollows, DriverState.lastInvoked, hexec ptr, hcalls]
  · rintro op state state' hall - rfl
    exact hall.run op

/-- In every state that calls of the driver interface can reach, the flag of a device that is not
`percpu` tells whether it is started exactly unless the last callback invoked for it was a
`driver_setup` that failed. -/
theorem execTracks_iff (hreach : (driverSystem n ω).Reachable (fun _ _ => True) state)
    {ptr : Fin n} (hpercpu : (state.table ptr).percpu = false) :
    ExecTracks state ptr ↔ ¬ ∃ call, state.lastInvoked ptr = some call ∧
      call.callback = .setup ∧ call.result ≠ StatusCode.success := by
  have hfollows := allFollow_of_reachable hreach ptr hpercpu
  rw [ExecFollows] at hfollows
  rw [ExecTracks, hfollows]
  cases state.lastInvoked ptr with
  | none => simp
  | some call =>
      by_cases hsetup : call.callback = .setup
      · simp [hsetup]
      · simp [hsetup]

/-! ## A device that starts, and one that does not -/

/-- One device whose `driver_setup` returns this result. -/
def oneDevice (result : StatusCode) : DriverState 1 Unit where
  table _ :=
    { name := "device"
      driverSetup := fun _ => (result, ())
      driverExit := fun _ => (StatusCode.success, ())
      sorder := Fin.last 255
      eorder := Fin.last 255
      exec := false
      percpu := false }
  world := ()
  calls := []

theorem reachable_register (result : StatusCode) :
    (driverSystem 1 Unit).Reachable (fun _ _ => True) (driverRegister 0 (oneDevice result)).2 := by
  have hstart : (driverSystem 1 Unit).Reachable (fun _ _ => True) (oneDevice result) :=
    .start ⟨fun _ => rfl, rfl⟩
  have hstep : (driverSystem 1 Unit).step (.register 0) (oneDevice result)
      (driverRegister 0 (oneDevice result)).2 := rfl
  exact hstart.step trivial hstep

theorem execTracks_started :
    (driverSystem 1 Unit).Reachable (fun _ _ => True)
        (driverRegister 0 (oneDevice StatusCode.success)).2 ∧
      ExecTracks (driverRegister 0 (oneDevice StatusCode.success)).2 0 := by
  refine ⟨reachable_register _, (execTracks_iff (reachable_register _) rfl).mpr ?_⟩
  rintro ⟨call, hcall, -, hfailed⟩
  cases hcall
  exact hfailed rfl

/-- A device whose `driver_setup` failed has its flag set; it cannot be registered again, and
`driver_deregister` invokes its `driver_exit`. -/
theorem exists_reachable_not_execTracks : ∃ state : DriverState 1 Unit,
    (driverSystem 1 Unit).Reachable (fun _ _ => True) state ∧ (state.table 0).percpu = false ∧
      ¬ ExecTracks state 0 ∧ (driverRegister 0 state).1 = StatusCode.errorDriverInitDone ∧
      (driverDeregister 0 state).2.calls.getLast?.map (·.invoked) = some true := by
  refine ⟨_, reachable_register StatusCode.errorDriver, rfl, fun htracks => ?_, rfl, rfl⟩
  obtain ⟨call, hcall, -, hresult⟩ := htracks.mp rfl
  cases hcall
  cases hresult

end Cyancore.Driver
