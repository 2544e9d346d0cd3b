/-
# Registering one device from several cores

`driver_register` reads the flag `exec` in one locked section and sets it in another.
A second core that reads the flag between the two finds it clear as well, and both go on
to `driver_setup`.  The callers below are cut at their locked sections and at the
invocation of the callback; `driver_setup` runs once in every run in which no core reads
the flag while another one is about to set it.
-/

import Cyancore.Driver.Driver
import Cyancore.Math.Interleaving

namespace Cyancore.Driver

open Cyancore.Math

/-- The device, the world, and the cores that have invoked `driver_setup`, latest first. -/
structure Board (tid ω : Type) where
  dev : Device ω
  world : ω
  setups : List tid

/-- How far a core is with its call of `driver_register`. -/
inductive Caller
  | /-- Next the section that reads `exec`. -/
    start
  | /-- The flag was clear; next the section that sets it. -/
    passed
  | /-- Next `driver_setup`. -/
    ready
  | /-- The call has returned. -/
    returned (invoked : Bool) (status : StatusCode)
  deriving DecidableEq, Repr

variable {tid ω : Type}

/-- The next section of `driver_register` on core `t`, or its call of `driver_setup`. -/
def registerAct (t : tid) (_ : Unit) (board : Board tid ω) :
    Caller → Option (Board tid ω × Caller)
  | .start =>
      if board.dev.percpu then some (board, .ready)
      else if board.dev.flag then
        some (board, .returned false StatusCode.errorDriverInitDone)
      else some (board, .passed)
  | .passed => some ({ board with dev := board.dev.setExec true }, .ready)
  | .ready =>
      let (ret, world) := board.dev.driverSetup board.world
      some ({ board with world := world, setups := t :: board.setups }, .returned true ret)
  | .returned _ _ => none

/-- The cores and the device they register. -/
abbrev RegisterPool (tid ω : Type) := Pool tid (Board tid ω) Caller

/-- `driver_setup` was invoked at most once, and every core that returned without invoking it got
`error_driver_init_done`. -/
structure SetupOnce (pool : RegisterPool tid ω) : Prop where
  once : pool.shared.setups.length ≤ 1
  others : ∀ t invoked status, pool.thread t = .returned invoked status →
    t ∉ pool.shared.setups → status = StatusCode.errorDriverInitDone

/-- No core reads the flag while another one has found it clear and not yet set it. -/
def TestsAlone (label : tid × Unit) (pool : RegisterPool tid ω) : Prop :=
  pool.thread label.1 = .start → ∀ other, pool.thread other ≠ .passed

/-! ## Runs in which the sections do not overlap -/

/-- The core found the flag clear. -/
def Caller.Won : Caller → Prop
  | .passed | .ready | .returned true _ => True
  | _ => False

/-- The invariant of runs in which no core reads the flag between another core's sections. -/
structure RaceFree (pool : RegisterPool tid ω) : Prop where
  percpu : pool.shared.dev.percpu = false
  clear : pool.shared.dev.exec = false → ∀ t, pool.thread t = .start ∨ pool.thread t = .passed
  winner : ∀ p q, (pool.thread p).Won → (pool.thread q).Won → p = q
  setups : ∀ t, t ∈ pool.shared.setups ↔ ∃ status, pool.thread t = .returned true status
  nodup : pool.shared.setups.Nodup
  lost : ∀ t status, pool.thread t = .returned false status →
    status = StatusCode.errorDriverInitDone

theorem RaceFree.setupOnce {pool : RegisterPool tid ω} (hfree : RaceFree pool) :
    SetupOnce pool where
  once := by
    cases hsetups : pool.shared.setups with
    | nil => simp
    | cons p rest =>
        cases rest with
        | nil => simp
        | cons q rest =>
            obtain ⟨status, hp⟩ := (hfree.setups p).mp (by simp [hsetups])
            obtain ⟨status', hq⟩ := (hfree.setups q).mp (by simp [hsetups])
            have heq := hfree.winner p q (by rw [hp]; trivial) (by rw [hq]; trivial)
            have hnodup := hfree.nodup
            rw [hsetups, heq] at hnodup
            simp at hnodup
  others := by
    intro t invoked status hreturned hnot
    cases invoked with
    | false => exact hfree.lost t status hreturned
    | true => exact absurd ((hfree.setups t).mpr ⟨status, hreturned⟩) hnot

variable [DecidableEq tid] {pool pool' : RegisterPool tid ω} {t : tid}

/-- Cores that call `driver_register` on a device that is not `percpu` and has not been started. -/
def registerSystem (tid ω : Type) [DecidableEq tid] :
    TransitionSystem (RegisterPool tid ω) (tid × Unit) :=
  Pool.interleaving
    (fun board => board.dev.percpu = false ∧ board.dev.exec = false ∧ board.setups = [])
    .start registerAct

/-- A core that is not interrupted by the others does what `driver_register` does alone. -/
theorem solo_eq_registerDevice (t : tid) (pool : RegisterPool tid ω)
    (hstart : pool.thread t = .start) :
    ∃ moves, (TransitionSystem.replay (Pool.step registerAct) (fun _ _ => True)
        (List.replicate moves (t, ())) pool).map
          (fun pool' => (pool'.thread t, pool'.shared.dev, pool'.shared.world)) =
      let (ret, dev, world, invoked) := registerDevice pool.shared.dev pool.shared.world
      some (.returned invoked ret, dev, world) := by
  cases hpercpu : pool.shared.dev.percpu with
  | true =>
      refine ⟨2, ?_⟩
      simp [List.replicate, TransitionSystem.replay, Pool.step, registerAct, registerDevice,
        hstart, hpercpu]
  | false =>
      cases hexec : pool.shared.dev.exec with
      | true =>
          refine ⟨1, ?_⟩
          simp [List.replicate, TransitionSystem.replay, Pool.step, registerAct, registerDevice,
            hstart, hpercpu, Device.flag, hexec]
      | false =>
          refine ⟨3, ?_⟩
          simp [List.replicate, TransitionSystem.replay, Pool.step, registerAct, registerDevice,
            hstart, hpercpu, Device.flag, hexec]

/-! ### One move

Each move takes one core from one point to another.  Only the last one, which invokes the
callback, adds to the invocations. -/

/-- A move that does not return from `driver_setup` leaves the invocations as they are. -/
theorem RaceFree.setups_update (hfree : RaceFree pool) {caller : Caller}
    (hbefore : ∀ status, pool.thread t ≠ .returned true status)
    (hafter : ∀ status, caller ≠ .returned true status) (p : tid) :
    p ∈ pool.shared.setups ↔
      ∃ status, Function.update pool.thread t caller p = .returned true status := by
  by_cases heq : p = t
  · subst heq
    simp [hfree.setups p, hbefore, hafter]
  · simp [heq, hfree.setups p]

/-- Only a core that found the flag set returns without invoking the callback. -/
theorem RaceFree.lost_update (hfree : RaceFree pool) {caller : Caller}
    (hcaller : ∀ status, caller = .returned false status →
      status = StatusCode.errorDriverInitDone) (p : tid) (status : StatusCode)
    (hreturned : Function.update pool.thread t caller p = .returned false status) :
    status = StatusCode.errorDriverInitDone := by
  by_cases heq : p = t
  · subst heq
    exact hcaller status (by simpa using hreturned)
  · exact hfree.lost p status (by simpa [heq] using hreturned)

/-- There is still one core that found the flag clear if the move does not make another. -/
theorem RaceFree.winner_update (hfree : RaceFree pool) {caller : Caller}
    (hcaller : caller.Won → (pool.thread t).Won) (p q : tid)
    (hp : (Function.update pool.thread t caller p).Won)
    (hq : (Function.update pool.thread t caller q).Won) : p = q := by
  have hwon : ∀ r, (Function.update pool.thread t caller r).Won → (pool.thread r).Won := by
    intro r hr
    by_cases heq : r = t
    · subst heq
      exact hcaller (by simpa using hr)
    · simpa [heq] using hr
  exact hfree.winner p q (hwon p hp) (hwon q hq)

/-- A core that finds the flag set returns. -/
theorem RaceFree.lose (hfree : RaceFree pool) (hstart : pool.thread t = .start)
    (hexec : pool.shared.dev.exec = true) :
    RaceFree ⟨pool.shared, Function.update pool.thread t
      (.returned false StatusCode.errorDriverInitDone)⟩ where
  percpu := hfree.percpu
  clear := fun h => by simp [hexec] at h
  winner := hfree.winner_update nofun
  setups := hfree.setups_update (by simp [hstart]) (by simp)
  nodup := hfree.nodup
  lost := hfree.lost_update (by simp [eq_comm])

/-- A core that finds the flag clear is the only one to do so. -/
theorem RaceFree.pass (hfree : RaceFree pool) (hstart : pool.thread t = .start)
    (hexec : pool.shared.dev.exec = false) (halone : ∀ other, pool.thread other ≠ .passed) :
    RaceFree ⟨pool.shared, Function.update pool.thread t .passed⟩ := by
  have hidle : ∀ other, pool.thread other = .start := fun other =>
    (hfree.clear hexec other).resolve_right (halone other)
  have hwon : ∀ p, (Function.update pool.thread t .passed p).Won → p = t := by
    intro p hp
    by_contra heq
    simp [heq, hidle p, Caller.Won] at hp
  constructor
  · exact hfree.percpu
  · intro _ p
    by_cases heq : p = t
    · exact .inr (by simp [heq])
    · exact .inl (by simp [heq, hidle p])
  · intro p q hp hq
    exact (hwon p hp).trans (hwon q hq).symm
  · exact hfree.setups_update (by simp [hstart]) (by simp)
  · exact hfree.nodup
  · exact hfree.lost_update (by simp)

/-- It sets the flag. -/
theorem RaceFree.mark (hfree : RaceFree pool) (hpassed : pool.thread t = .passed) :
    RaceFree ⟨{ pool.shared with dev := pool.shared.dev.setExec true },
      Function.update pool.thread t .ready⟩ where
  percpu := hfree.percpu
  clear := fun h => by simp [Device.setExec] at h
  winner := hfree.winner_update fun _ => by rw [hpassed]; trivial
  setups := hfree.setups_update (by simp [hpassed]) (by simp)
  nodup := hfree.nodup
  lost := hfree.lost_update (by simp)

/-- It invokes the callback and returns. -/
theorem RaceFree.setup (hfree : RaceFree pool) (hready : pool.thread t = .ready) (world : ω)
    (ret : StatusCode) :
    RaceFree ⟨{ pool.shared with world := world, setups := t :: pool.shared.setups },
      Function.update pool.thread t (.returned true ret)⟩ where
  percpu := hfree.percpu
  clear := by
    intro hexec
    rcases hfree.clear hexec t with h | h
    · simp [hready] at h
    · simp [hready] at h
  winner := hfree.winner_update fun _ => by rw [hready]; trivial
  setups := by
    intro p
    by_cases heq : p = t
    · simp [heq]
    · simp [heq, hfree.setups p]
  nodup := by
    apply List.nodup_cons.mpr ⟨?_, hfree.nodup⟩
    rw [hfree.setups t, hready]
    simp
  lost := hfree.lost_update (by simp)

theorem RaceFree.step (hfree : RaceFree pool) {label : tid × Unit} (halone : TestsAlone label pool)
    (hstep : Pool.step registerAct label pool = some pool') : RaceFree pool' := by
  obtain ⟨t, choice⟩ := label
  obtain ⟨board, caller, hact, rfl⟩ := Pool.step_eq_some_iff.mp hstep
  cases hphase : pool.thread t with
  | start =>
      cases hexec : pool.shared.dev.exec with
      | true =>
          simp only [hphase, registerAct, hfree.percpu, Device.flag, hexec] at hact
          cases hact
          exact hfree.lose hphase hexec
      | false =>
          simp only [hphase, registerAct, hfree.percpu, Device.flag, hexec] at hact
          cases hact
          exact hfree.pass hphase hexec (halone hphase)
  | passed =>
      simp only [hphase, registerAct] at hact
      cases hact
      exact hfree.mark hphase
  | ready =>
      simp only [hphase, registerAct] at hact
      cases hact
      exact hfree.setup hphase _ _
  | returned invoked status => simp [hphase, registerAct] at hact

/-- In every run in which no core reads the flag between the two sections of another core,
`driver_setup` is invoked at most once, and all other cores get `error_driver_init_done`. -/
theorem setupOnce_of_reachable
    (hreach : (registerSystem tid ω).Reachable TestsAlone pool) : SetupOnce pool := by
  apply RaceFree.setupOnce
  apply hreach.invariant RaceFree
  · rintro state ⟨⟨hpercpu, hexec, hsetups⟩, hstart⟩
    constructor
    · exact hpercpu
    · exact fun _ t => .inl (hstart t)
    · intro p q hp
      simp [hstart p, Caller.Won] at hp
    · intro t
      simp [hsetups, hstart t]
    · simp [hsetups]
    · intro t status hreturned
      simp [hstart t] at hreturned
  · intro label state state' hfree halone hstep
    exact hfree.step halone hstep

/-! ## Two cores -/

/-- Two cores about to register a device. -/
def twoCallers : RegisterPool (Fin 2) Unit where
  shared :=
    { dev :=
        { name := "device"
          driverSetup := fun _ => (StatusCode.success, ())
          driverExit := fun _ => (StatusCode.success, ())
          sorder := Fin.last 255
          eorder := Fin.last 255
          exec := false
          percpu := false }
      world := ()
      setups := [] }
  thread _ := .start

instance (label : Fin 2 × Unit) (pool : RegisterPool (Fin 2) ω) :
    Decidable (TestsAlone label pool) :=
  inferInstanceAs (Decidable
    (pool.thread label.1 = .start → ∀ other, pool.thread other ≠ .passed))

theorem setupOnce_in_turn : ∃ pool : RegisterPool (Fin 2) Unit,
    (registerSystem (Fin 2) Unit).Reachable TestsAlone pool ∧
      pool.thread 1 = .returned false StatusCode.errorDriverInitDone ∧ SetupOnce pool := by
  have hstart : (registerSystem (Fin 2) Unit).Reachable TestsAlone twoCallers :=
    .start ⟨⟨rfl, rfl, rfl⟩, fun _ => rfl⟩
  have htest : (TransitionSystem.replay (Pool.step registerAct) TestsAlone
      [(0, ()), (0, ()), (1, ()), (0, ())] twoCallers).any
        (fun pool => pool.thread 1 = .returned false StatusCode.errorDriverInitDone) = true := by
    decide
  obtain ⟨pool, hreach, hpool⟩ := hstart.exists_replay htest
  exact ⟨pool, hreach, of_decide_eq_true hpool, setupOnce_of_reachable hreach⟩

/-- Both cores read the flag before either sets it, and both invoke `driver_setup`. -/
theorem exists_reachable_not_setupOnce : ∃ pool : RegisterPool (Fin 2) Unit,
    (registerSystem (Fin 2) Unit).Reachable (fun _ _ => True) pool ∧ ¬ SetupOnce pool := by
  have hstart : (registerSystem (Fin 2) Unit).Reachable (fun _ _ => True) twoCallers :=
    .start ⟨⟨rfl, rfl, rfl⟩, fun _ => rfl⟩
  have htest : (TransitionSystem.replay (Pool.step registerAct) (fun _ _ => True)
      [(0, ()), (1, ()), (0, ()), (1, ()), (0, ()), (1, ())] twoCallers).any
        (fun pool => pool.shared.setups.length = 2) = true := by
    decide
  obtain ⟨pool, hreach, hpool⟩ := hstart.exists_replay htest
  refine ⟨pool, hreach, fun honce => ?_⟩
  have hlength := honce.once
  rw [of_decide_eq_true hpool] at hlength
  omega

end Cyancore.Driver
