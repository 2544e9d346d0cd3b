/-
# The secondary cores wait for the boot core

The cores start together.  The boot core writes `boot_key` as taken and goes on to
`engine`; it is expected to call `arch_signal_boot_done`, which releases the key.  Every
other core takes the key and releases it again before it goes on to `engine_secondary`.
The key may hold anything before the boot core has written it.
-/

import Cyancore.Locks.SpinlockAtomic
import Mathlib.Order.Filter.AtTopBot.Basic
import Mathlib.Order.Filter.Finite

namespace Cyancore.Riscv

open Cyancore.Math Cyancore.Locks

/-- What a core does next in `init`. -/
inductive BootPhase
  | /-- Before the first access to `boot_key`. -/
    reset
  | /-- A secondary core in `arch_wait_till_boot_done`. -/
    waiting (phase : AmoPhase)
  | /-- The boot core in `engine`; next `arch_signal_boot_done`. -/
    engine
  | /-- The boot core has called `arch_signal_boot_done`. -/
    signalled
  | /-- A secondary core in `engine_secondary`. -/
    engineSecondary
  deriving DecidableEq, Repr

/-- What a secondary core does next after an access to the key; one that has released it goes
on. -/
def BootPhase.ofSpin : AmoPhase → BootPhase
  | .outside => .engineSecondary
  | phase => .waiting phase

/-- An access of a secondary core in `arch_wait_till_boot_done`. -/
def waitAct (key : Word) (phase : AmoPhase) : Word × BootPhase :=
  ((amoAct key phase).1, .ofSpin (amoAct key phase).2)

/-- One access of core `tid` to `boot_key` in `init`. -/
def bootAct {n : ℕ} (bootCoreId tid : Fin n) (key : Word) : BootPhase → Option (Word × BootPhase)
  | .reset => some (if tid = bootCoreId then (1, .engine) else waitAct key .outside)
  | .waiting phase => some (waitAct key phase)
  | .engine => some (0, .signalled)
  | .signalled | .engineSecondary => none

abbrev BootPool (n : ℕ) := Pool (Fin n) Word BootPhase

/-- `n` cores out of reset, over a key that holds anything. -/
def bootSystem {n : ℕ} (bootCoreId : Fin n) : TransitionSystem (BootPool n) (Fin n × Unit) :=
  Pool.interleaving (fun _ => True) .reset fun tid _ key phase => bootAct bootCoreId tid key phase

/-- A secondary core that comes to the key before the boot core has written it finds it taken. -/
def LateStart {n : ℕ} (bootCoreId : Fin n) (label : Fin n × Unit) (pool : BootPool n) : Prop :=
  label.1 ≠ bootCoreId → pool.thread bootCoreId = .reset → pool.shared ≠ 0

variable {n : ℕ} {bootCoreId p q tid : Fin n} {pool pool' : BootPool n} {key key' : Word}
  {here here' : BootPhase}

/-! ## The boot core as the first owner of the key -/

/-- What the core is doing to the key; the boot core has it while it is in `engine`. -/
def BootPhase.toSpin : BootPhase → AmoPhase
  | .waiting phase => phase
  | .engine => .holding
  | .reset | .signalled | .engineSecondary => .outside

/-- The use of the key as a spinlock. -/
def BootPool.asSpin (pool : BootPool n) : AmoPool n :=
  ⟨pool.shared, fun p => (pool.thread p).toSpin⟩

@[simp]
theorem BootPhase.toSpin_ofSpin (phase : AmoPhase) : (BootPhase.ofSpin phase).toSpin = phase := by
  cases phase with
  | _ => rfl

/-- Apart from the boot core's first write, every access is one of the spinlock. -/
theorem amoAct_of_bootAct (hact : bootAct bootCoreId tid key here = some (key', here'))
    (hreset : here = .reset → tid ≠ bootCoreId) :
    amoAct key here.toSpin = (key', here'.toSpin) := by
  cases here with
  | reset =>
      rw [bootAct, if_neg (hreset rfl), Option.some.injEq, waitAct, Prod.mk.injEq] at hact
      obtain ⟨rfl, rfl⟩ := hact
      rw [BootPhase.toSpin_ofSpin]
      rfl
  | waiting phase =>
      rw [bootAct, Option.some.injEq, waitAct, Prod.mk.injEq] at hact
      obtain ⟨rfl, rfl⟩ := hact
      rw [BootPhase.toSpin_ofSpin]
      rfl
  | engine =>
      rw [bootAct, Option.some.injEq, Prod.mk.injEq] at hact
      obtain ⟨rfl, rfl⟩ := hact
      rfl
  | signalled | engineSecondary => cases hact

theorem BootPool.asSpin_step
    (hstep : Pool.step (fun tid _ key phase => bootAct bootCoreId tid key phase) (tid, ()) pool =
      some pool')
    (hreset : pool.thread tid = .reset → tid ≠ bootCoreId) :
    Pool.step (fun _ _ key phase => some (amoAct key phase)) (tid, ()) pool.asSpin =
      some pool'.asSpin := by
  obtain ⟨key, here, hact, rfl⟩ := Pool.step_eq_some_iff.mp hstep
  rw [Pool.step_eq_some_iff]
  refine ⟨key, here.toSpin, congrArg some (amoAct_of_bootAct hact hreset), ?_⟩
  simp only [asSpin, Pool.mk.injEq, true_and]
  funext q
  by_cases hq : q = tid
  · subst hq
    simp
  · simp [hq]

/-- What holds of the cores throughout the boot. -/
structure BootOk (bootCoreId : Fin n) (pool : BootPool n) : Prop where
  /-- The boot core does not wait. -/
  boot : pool.thread bootCoreId = .reset ∨ pool.thread bootCoreId = .engine ∨
    pool.thread bootCoreId = .signalled
  /-- Before the boot core's first write no secondary core gets beyond the first loop. -/
  early : pool.thread bootCoreId = .reset → ∀ p ≠ bootCoreId,
    pool.thread p = .reset ∨ pool.thread p = .waiting .test
  /-- From that write on the key is used as a spinlock. -/
  spin : pool.thread bootCoreId ≠ .reset → AmoOk pool.asSpin
  /-- Nobody passes before the signal. -/
  passed : pool.thread bootCoreId ≠ .signalled → ∀ p, pool.thread p ≠ .engineSecondary

/-- A core passes when it releases the key. -/
theorem holding_of_engineSecondary
    (hact : bootAct bootCoreId tid key here = some (key', .engineSecondary))  :
    here = .waiting .holding := by
  have hrelease : ∀ phase, BootPhase.ofSpin (amoAct key phase).2 = .engineSecondary →
      phase = .holding := by
    intro phase h
    cases phase with
    | outside | test | swap =>
        simp only [amoAct] at h
        split at h <;> cases h
    | holding => rfl
  cases here with
  | reset =>
      rw [bootAct, Option.some.injEq] at hact
      split at hact
      · cases congrArg Prod.snd hact
      · cases hrelease .outside (congrArg Prod.snd hact)
  | waiting phase =>
      rw [bootAct, Option.some.injEq] at hact
      rw [hrelease phase (congrArg Prod.snd hact)]
  | engine | signalled | engineSecondary => cases hact

/-- A secondary core that finds the key taken goes on reading it. -/
theorem waiting_test_of_taken (hact : bootAct bootCoreId tid key here = some (key', here'))
    (hne : tid ≠ bootCoreId) (htaken : key ≠ 0) (hearly : here = .reset ∨ here = .waiting .test) :
    here' = .waiting .test := by
  rcases hearly with rfl | rfl
  · rw [bootAct, if_neg hne, Option.some.injEq, waitAct, amoAct, if_neg htaken] at hact
    exact (congrArg Prod.snd hact).symm
  · rw [bootAct, Option.some.injEq, waitAct, amoAct, if_neg htaken] at hact
    exact (congrArg Prod.snd hact).symm

/-- The boot core's moves. -/
theorem BootOk.step_boot (hok : BootOk bootCoreId pool)
    (hstep : Pool.step (fun tid _ key phase => bootAct bootCoreId tid key phase) (bootCoreId, ())
      pool = some pool') : BootOk bootCoreId pool' := by
  have hspin := fun h => BootPool.asSpin_step hstep h
  obtain ⟨hact, hother⟩ := Pool.step_moves hstep
  rcases hok.boot with hreset | hengine | hsignalled
  · simp only [hreset, bootAct, if_true, Option.some.injEq, Prod.mk.injEq] at hact
    obtain ⟨hkey, hboot⟩ := hact
    have hout : ∀ q ≠ bootCoreId,
        (pool'.thread q).toSpin ≠ .holding ∧ pool'.thread q ≠ .engineSecondary := by
      intro q hne
      rw [hother q hne]
      rcases hok.early hreset q hne with h | h <;> rw [h] <;> exact ⟨nofun, nofun⟩
    have honly : ∀ q, (pool'.thread q).toSpin = .holding → q = bootCoreId := by
      intro q h
      by_contra hne
      exact (hout q hne).1 h
    refine ⟨.inr (.inl hboot.symm), fun h => ?_, fun _ => ⟨⟨fun _ => ⟨bootCoreId, ?_⟩, fun _ => ?_⟩,
      fun q r hq hr => (honly q hq).trans (honly r hr).symm⟩, fun _ q => ?_⟩
    · rw [← hboot] at h
      cases h
    · simp only [BootPool.asSpin, ← hboot, BootPhase.toSpin]
    · simp only [BootPool.asSpin, ← hkey]
      decide
    · by_cases hne : q = bootCoreId
      · rw [hne, ← hboot]
        nofun
      · exact (hout q hne).2
  · have hne : pool.thread bootCoreId ≠ .reset := by
      rw [hengine]
      nofun
    have hspins := (hok.spin hne).step (hspin fun h => absurd h hne)
    simp only [hengine, bootAct, Option.some.injEq, Prod.mk.injEq] at hact
    refine ⟨.inr (.inr hact.2.symm), fun h => ?_, fun _ => hspins, fun h => absurd hact.2.symm h⟩
    rw [← hact.2] at h
    cases h
  · rw [hsignalled] at hact
    cases hact

/-- The moves of the other cores. -/
theorem BootOk.step_secondary (hok : BootOk bootCoreId pool) (hne : tid ≠ bootCoreId)
    (hlate : pool.thread bootCoreId = .reset → pool.shared ≠ 0)
    (hstep : Pool.step (fun tid _ key phase => bootAct bootCoreId tid key phase) (tid, ()) pool =
      some pool') : BootOk bootCoreId pool' := by
  have hspin := BootPool.asSpin_step hstep fun _ => hne
  obtain ⟨hact, hother⟩ := Pool.step_moves hstep
  have hboot := hother bootCoreId hne.symm
  refine ⟨hboot ▸ hok.boot, fun hreset q hq => ?_, fun hreset => ?_, fun hquiet q => ?_⟩
  · rw [hboot] at hreset
    by_cases hqt : q = tid
    · subst hqt
      exact .inr (waiting_test_of_taken hact hne (hlate hreset) (hok.early hreset q hq))
    · exact hother q hqt ▸ hok.early hreset q hq
  · exact (hok.spin (hboot ▸ hreset)).step hspin
  · rw [hboot] at hquiet
    by_cases hqt : q = tid
    · subst hqt
      intro hpasses
      rw [hpasses] at hact
      have hholds := holding_of_engineSecondary hact
      rcases hok.boot with hreset | hengine | hsignalled
      · rcases hok.early hreset q hne with h | h <;> rw [hholds] at h <;> cases h
      · -- the boot core still has the key
        have hspins := hok.spin (by rw [hengine]; nofun)
        refine hne (hspins.alone q bootCoreId ?_ ?_)
        · simp only [BootPool.asSpin, hholds, BootPhase.toSpin]
        · simp only [BootPool.asSpin, hengine, BootPhase.toSpin]
      · exact hquiet hsignalled
    · exact hother q hqt ▸ hok.passed hquiet q

theorem bootOk_of_reachable
    (hreach : (bootSystem bootCoreId).Reachable (LateStart bootCoreId) pool) :
    BootOk bootCoreId pool := by
  apply TransitionSystem.Reachable.invariant (BootOk bootCoreId) _ _ hreach
  · rintro state ⟨-, hstart⟩
    refine ⟨.inl (hstart _), fun _ p _ => .inl (hstart p), fun h => absurd (hstart _) h, ?_⟩
    intro _ p
    rw [hstart p]
    nofun
  · rintro ⟨tid, ⟨⟩⟩ state state' hok hlate hstep
    by_cases hne : tid = bootCoreId
    · subst hne
      exact hok.step_boot hstep
    · exact hok.step_secondary hne (hlate hne) hstep

/-- In every interleaving, a core other than the boot core gets past its wait only after the boot
core has called `arch_signal_boot_done`, and only one core at a time has the key. -/
theorem arch_wait_till_boot_done_waits
    (hreach : (bootSystem bootCoreId).Reachable (LateStart bootCoreId) pool)
    (hp : pool.thread p = .waiting .holding ∨ pool.thread p = .engineSecondary) :
    pool.thread bootCoreId = .signalled ∧
      ∀ q, pool.thread p = .waiting .holding → pool.thread q = .waiting .holding → p = q := by
  have hok := bootOk_of_reachable hreach
  have hne : p ≠ bootCoreId := by
    rintro rfl
    rcases hok.boot with h | h | h <;> rcases hp with h' | h' <;> rw [h] at h' <;> cases h'
  rcases hok.boot with hreset | hengine | hsignalled
  · rcases hok.early hreset p hne with h | h <;> rcases hp with h' | h' <;> rw [h] at h' <;>
      cases h'
  · have hspins := hok.spin (by rw [hengine]; nofun)
    rcases hp with hholds | hpassed
    · refine absurd (hspins.alone p bootCoreId ?_ ?_) hne
      · simp only [BootPool.asSpin, hholds, BootPhase.toSpin]
      · simp only [BootPool.asSpin, hengine, BootPhase.toSpin]
    · exact absurd hpassed (hok.passed (by rw [hengine]; nofun) p)
  · have hspins := hok.spin (by rw [hsignalled]; nofun)
    refine ⟨hsignalled, fun q hholds hq => hspins.alone p q ?_ ?_⟩
    · simp only [BootPool.asSpin, hholds, BootPhase.toSpin]
    · simp only [BootPool.asSpin, hq, BootPhase.toSpin]

instance (label : Fin n × Unit) (pool : BootPool n) : Decidable (LateStart bootCoreId label pool) :=
  inferInstanceAs (Decidable (_ → _ → _))

/-- `core` is first at the key, which is taken by chance; `boot` writes it, and signals. -/
def bootLabels (boot core : Fin 2) : List (Fin 2 × Unit) :=
  [core, boot, core, boot, core, core, core].map fun tid => (tid, ())

/-- Two cores out of reset. -/
def bootReset : BootPool 2 := ⟨5, fun _ => .reset⟩

theorem arch_wait_till_boot_done_waits_two : ∃ pool : BootPool 2,
    (bootSystem 0).Reachable (LateStart 0) pool ∧ pool.thread 1 = .engineSecondary ∧
      pool.thread 0 = .signalled := by
  have hstart : (bootSystem 0).Reachable (LateStart 0) bootReset := .start ⟨trivial, fun _ => rfl⟩
  have htest : (TransitionSystem.replay
      (Pool.step fun tid _ key phase => bootAct 0 tid key phase) (LateStart 0) (bootLabels 0 1)
        bootReset).any (fun pool => pool.thread 1 = .engineSecondary) = true := by
    decide
  obtain ⟨pool, hreach, hpool⟩ := hstart.exists_replay htest
  have hpassed := of_decide_eq_true hpool
  exact ⟨pool, hreach, hpassed, (arch_wait_till_boot_done_waits hreach (.inr hpassed)).1⟩

/-! ## After the signal -/

/-- A run of the cores without an end, whoever comes to the key first. -/
abbrev BootRun (bootCoreId : Fin n) := InfiniteRun (bootSystem bootCoreId) fun _ _ => True

/-- Every secondary core that has not passed moves again. -/
def BootRun.Fair (run : BootRun bootCoreId) : Prop :=
  ∀ p ≠ bootCoreId, ∀ time, (run.state time).thread p ≠ .engineSecondary →
    ∃ later ≥ time, ∃ l, run.label later = some l ∧ l.1 = p

/-- How many stages of the boot the core has before it. -/
def BootPhase.left : BootPhase → ℕ
  | .waiting .holding | .engine => 1
  | .reset | .waiting _ => 2
  | .signalled | .engineSecondary => 0

theorem left_le (hact : bootAct bootCoreId tid key here = some (key', here')) :
    here'.left ≤ here.left := by
  have hwait : ∀ phase, phase ≠ .holding → (BootPhase.ofSpin (amoAct key phase).2).left ≤ 2 := by
    intro phase _
    generalize (amoAct key phase).2 = next
    cases next <;> decide
  cases here with
  | reset =>
      rw [bootAct] at hact
      split at hact
      · obtain ⟨rfl, rfl⟩ := Prod.mk.inj (Option.some.inj hact)
        decide
      · obtain ⟨rfl, rfl⟩ := Prod.mk.inj (Option.some.inj hact)
        exact hwait .outside nofun
  | waiting phase =>
      obtain ⟨rfl, rfl⟩ := Prod.mk.inj (Option.some.inj hact)
      cases phase with
      | holding => exact Nat.zero_le 1
      | _ => exact hwait _ nofun
  | engine =>
      obtain ⟨rfl, rfl⟩ := Prod.mk.inj (Option.some.inj hact)
      exact Nat.zero_le 1
  | signalled | engineSecondary => cases hact

/-- A core that has the key gives it back with its next access. -/
theorem left_of_one (hact : bootAct bootCoreId tid key here = some (key', here'))
    (hone : here.left = 1) : here'.left = 0 := by
  cases here with
  | waiting phase =>
      obtain ⟨rfl, rfl⟩ := Prod.mk.inj (Option.some.inj hact)
      cases phase with
      | holding => rfl
      | _ => cases hone
  | engine =>
      obtain ⟨rfl, rfl⟩ := Prod.mk.inj (Option.some.inj hact)
      rfl
  | reset | signalled | engineSecondary => cases hone

theorem left_of_toSpin (hholds : here.toSpin = .holding) : here.left = 1 := by
  cases here with
  | waiting phase =>
      cases phase with
      | holding => rfl
      | _ => cases hholds
  | engine => rfl
  | reset | signalled | engineSecondary => cases hholds

/-- The signal comes from the boot core in `engine`. -/
theorem boot_of_signalled (hact : bootAct bootCoreId tid key here = some (key', .signalled)) :
    here = .engine := by
  have hwait : ∀ phase, BootPhase.ofSpin phase ≠ .signalled := by
    intro phase
    cases phase <;> nofun
  cases here with
  | reset =>
      rw [bootAct, Option.some.injEq] at hact
      split at hact
      · cases congrArg Prod.snd hact
      · exact absurd (congrArg Prod.snd hact) (hwait _)
  | waiting phase => exact absurd (congrArg Prod.snd (Option.some.inj hact)) (hwait _)
  | engine => rfl
  | signalled | engineSecondary => cases hact

/-- Only the boot core goes through `engine`. -/
theorem secondary_of_reachable {guard : Fin n × Unit → BootPool n → Prop}
    (hreach : (bootSystem bootCoreId).Reachable guard pool) :
    ∀ p ≠ bootCoreId, pool.thread p ≠ .engine ∧ pool.thread p ≠ .signalled := by
  apply TransitionSystem.Reachable.invariant _ _ _ hreach
  · rintro state ⟨-, hstart⟩ p -
    rw [hstart p]
    exact ⟨nofun, nofun⟩
  · rintro ⟨tid, ⟨⟩⟩ state state' hok - hstep p hp
    obtain ⟨hact, hother⟩ := Pool.step_moves hstep
    by_cases htid : p = tid
    · subst htid
      have hspin : ∀ phase,
          BootPhase.ofSpin phase ≠ .engine ∧ BootPhase.ofSpin phase ≠ .signalled := by
        intro phase
        cases phase <;> exact ⟨nofun, nofun⟩
      cases hphase : state.thread p with
      | reset =>
          rw [hphase, bootAct, if_neg hp] at hact
          rw [← (Prod.mk.inj (Option.some.inj hact)).2]
          exact hspin _
      | waiting phase =>
          rw [hphase] at hact
          rw [← (Prod.mk.inj (Option.some.inj hact)).2]
          exact hspin _
      | engine => exact absurd hphase (hok p hp).1
      | signalled => exact absurd hphase (hok p hp).2
      | engineSecondary =>
          rw [hphase] at hact
          cases hact
    · exact hother p htid ▸ hok p hp

/-- Once the boot core has released the key, a key that is taken has an owner, however the key was
used before. -/
theorem exists_holding_of_signalled {guard : Fin n × Unit → BootPool n → Prop}
    (hreach : (bootSystem bootCoreId).Reachable guard pool) :
    pool.thread bootCoreId = .signalled → pool.shared ≠ 0 →
      ∃ q, (pool.thread q).toSpin = .holding := by
  apply TransitionSystem.Reachable.invariant _ _ _ hreach
  · rintro state ⟨-, hstart⟩ hsignalled
    rw [hstart] at hsignalled
    cases hsignalled
  · rintro ⟨tid, ⟨⟩⟩ state state' howner - hstep hsignalled htaken
    obtain ⟨hact, hother⟩ := Pool.step_moves hstep
    by_cases hboot : tid = bootCoreId
    · -- the signal itself frees the key
      subst hboot
      have hphase := boot_of_signalled (hsignalled ▸ hact)
      rw [hphase, bootAct, Option.some.injEq, Prod.mk.injEq] at hact
      exact absurd hact.1.symm htaken
    · have hspin := amoAct_of_bootAct hact fun _ => hboot
      have hkey : (amoAct state.shared (state.thread tid).toSpin).1 = state'.shared := by rw [hspin]
      have hhere : (amoAct state.shared (state.thread tid).toSpin).2 =
          (state'.thread tid).toSpin := by
        rw [hspin]
      by_cases hholds : (state'.thread tid).toSpin = .holding
      · exact ⟨tid, hholds⟩
      · -- the key was taken before, and by another core
        have htaken' : state.shared ≠ 0 := fun hfree =>
          htaken (hkey ▸ amoAct_eq_zero hfree (hhere ▸ hholds))
        obtain ⟨q, hq⟩ := howner (hother bootCoreId (Ne.symm hboot) ▸ hsignalled) htaken'
        have hne : q ≠ tid := by
          rintro rfl
          rw [hq] at hkey
          exact htaken hkey.symm
        exact ⟨q, by rw [hother q hne, hq]⟩

/-- How many reads a core makes before it swaps, once the key stays free. -/
def BootPhase.reads : BootPhase → ℕ
  | .waiting .swap => 0
  | _ => 1

/-- A waiting core that finds the key free comes nearer to having it. -/
theorem reads_lt_of_free (hact : bootAct bootCoreId tid key here = some (key', here'))
    (hne : tid ≠ bootCoreId) (hfree : key = 0) (hwaits : here.left = 2) :
    here'.left < 2 ∨ here'.reads < here.reads := by
  cases here with
  | reset =>
      rw [bootAct, if_neg hne, waitAct, amoAct, if_pos hfree] at hact
      obtain ⟨rfl, rfl⟩ := Prod.mk.inj (Option.some.inj hact)
      exact .inr Nat.zero_lt_one
  | waiting phase =>
      obtain ⟨rfl, rfl⟩ := Prod.mk.inj (Option.some.inj hact)
      cases phase with
      | outside | test =>
          rw [amoAct, if_pos hfree]
          exact .inr Nat.zero_lt_one
      | swap =>
          rw [amoAct, if_pos hfree]
          exact .inl (by decide)
      | holding => cases hwaits
  | engine | signalled | engineSecondary => cases hwaits

variable {run : BootRun bootCoreId} {start time : ℕ}

theorem BootRun.act (run : BootRun bootCoreId) {l : Fin n × Unit}
    (hlabel : run.label time = some l) :
    bootAct bootCoreId l.1 (run.state time).shared ((run.state time).thread l.1) =
      some ((run.state (time + 1)).shared, (run.state (time + 1)).thread l.1) :=
  InfiniteRun.act_of_label (c := l.2) hlabel

theorem BootRun.same_of_other {l : Fin n × Unit} (hlabel : run.label time = some l)
    (hne : l.1 ≠ p) : (run.state (time + 1)).thread p = (run.state time).thread p := by
  refine InfiniteRun.thread_of_other fun c hc => hne ?_
  rw [hlabel, Option.some.injEq] at hc
  exact congrArg Prod.fst hc

theorem BootRun.left_le_succ (run : BootRun bootCoreId) (p : Fin n) (l : Fin n × Unit)
    (hlabel : run.label time = some l) :
    ((run.state (time + 1)).thread p).left ≤ ((run.state time).thread p).left := by
  by_cases hp : l.1 = p
  · subst hp
    exact left_le (run.act hlabel)
  · rw [same_of_other hlabel hp]

/-- From some time on every core keeps its stage. -/
theorem BootRun.exists_settled (run : BootRun bootCoreId) (start : ℕ) :
    ∃ time ≥ start, ∀ p, ∀ later ≥ time,
      ((run.state later).thread p).left = ((run.state time).thread p).left := by
  have heach : ∀ p, ∃ time, ∀ later ≥ time,
      ((run.state later).thread p).left = ((run.state (later + 1)).thread p).left := by
    intro p
    obtain ⟨time, htime⟩ := run.exists_const (fun pool => (pool.thread p).left)
      fun time l hlabel => run.left_le_succ p l hlabel
    exact ⟨time, fun later hlater => (htime later hlater).trans (htime (later + 1) (by omega)).symm⟩
  have hall := Filter.eventually_all.mpr fun p => Filter.eventually_atTop.mpr (heach p)
  obtain ⟨time, htime⟩ := Filter.eventually_atTop.mp hall
  refine ⟨max time start, le_max_right _ _, fun p later hlater => ?_⟩
  induction later, hlater using Nat.le_induction with
  | base => rfl
  | succ later hlater ih => exact (htime later (le_of_max_le_left hlater) p).symm.trans ih

/-- A core that goes on moving and keeps its stage does not have the key. -/
theorem BootRun.left_ne_one (hfair : BootRun.Fair run) (hp : p ≠ bootCoreId)
    (hsettled : ∀ later ≥ time,
      ((run.state later).thread p).left = ((run.state time).thread p).left) :
    ∀ later ≥ time, ((run.state later).thread p).left ≠ 1 := by
  intro later hlater hone
  have hkeeps : ∀ last ≥ later, ((run.state last).thread p).left = 1 :=
    fun last hlast => ((hsettled last (by omega)).trans (hsettled later hlater).symm).trans hone
  have hbusy : (run.state later).thread p ≠ .engineSecondary := by
    intro h
    rw [h] at hone
    cases hone
  obtain ⟨last, hlast, l, hlabel, rfl⟩ := hfair p hp later hbusy
  have hzero := left_of_one (run.act hlabel) (hkeeps last hlast)
  rw [hkeeps (last + 1) (by omega)] at hzero
  cases hzero

/-- Once the boot core has called `arch_signal_boot_done`, every other core gets to
`engine_secondary`, whatever the order in which they try and whatever was in the key. -/
theorem arch_signal_boot_done_opens (run : BootRun bootCoreId) (hfair : run.Fair)
    (hsignal : (run.state start).thread bootCoreId = .signalled) (p : Fin n)
    (hp : p ≠ bootCoreId) : ∃ later ≥ start, (run.state later).thread p = .engineSecondary := by
  by_contra hnever
  push Not at hnever
  obtain ⟨time, htime, hsettled⟩ := run.exists_settled start
  have hboot : ∀ later ≥ start, (run.state later).thread bootCoreId = .signalled := by
    apply run.stays (fun pool => pool.thread bootCoreId = .signalled) hsignal
    rintro later - l hlabel hbefore
    by_cases hl : l.1 = bootCoreId
    · have hact := run.act hlabel
      rw [hl, hbefore] at hact
      cases hact
    · rw [BootRun.same_of_other hlabel hl, hbefore]
  -- nobody takes the key any more, so it is free
  have hfree : ∀ later ≥ time, (run.state later).shared = 0 := by
    intro later hlater
    have hsignalled := hboot later (by omega)
    by_contra htaken
    obtain ⟨q, hq⟩ := exists_holding_of_signalled (run.reachable later) hsignalled htaken
    by_cases hne : q = bootCoreId
    · rw [hne, hsignalled] at hq
      cases hq
    · exact BootRun.left_ne_one hfair hne (hsettled q) later hlater (left_of_toSpin hq)
  have hwaits : ∀ later ≥ time, ((run.state later).thread p).left = 2 := by
    intro later hlater
    have hone := BootRun.left_ne_one hfair hp (hsettled p) later hlater
    have hphase := hnever later (by omega)
    have hrole := secondary_of_reachable (run.reachable later) p hp
    cases h : (run.state later).thread p with
    | reset => rfl
    | waiting phase =>
        rw [h] at hone
        cases phase with
        | holding => exact absurd rfl hone
        | _ => rfl
    | engine => exact absurd h hrole.1
    | signalled => exact absurd h hrole.2
    | engineSecondary => exact absurd h hphase
  have hreads : ∀ later ≥ time, ∀ l, run.label later = some l →
      ((run.state later).thread p).left = 2 → ((run.state (later + 1)).thread p).left = 2 →
        ((run.state (later + 1)).thread p).reads ≤ ((run.state later).thread p).reads ∧
          (l.1 = p →
            ((run.state (later + 1)).thread p).reads < ((run.state later).thread p).reads) := by
    intro later hlater l hlabel hbefore hafter
    by_cases hl : l.1 = p
    · subst hl
      have hless := (reads_lt_of_free (run.act hlabel) hp (hfree later hlater) hbefore).resolve_left
        (by omega)
      exact ⟨hless.le, fun _ => hless⟩
    · rw [BootRun.same_of_other hlabel hl]
      exact ⟨le_rfl, fun h => absurd h hl⟩
  obtain ⟨last, hlast, -, hleaves⟩ := run.exists_last (fun pool => (pool.thread p).left = 2)
    (fun pool => (pool.thread p).reads) (fun l => l.1 = p) (hwaits time le_rfl)
    (fun later hlater _ => hfair p hp later (hnever later (by omega))) hreads
  exact hleaves (hwaits (last + 1) (by omega))

theorem exists_bootRun : ∃ run : BootRun (0 : Fin 2), run.Fair ∧
    (run.state 4).thread 0 = .signalled ∧ (run.state 4).thread 1 = .waiting .test := by
  let labels := bootLabels 0 1
  let run : BootRun (0 : Fin 2) := .ofReplay labels bootReset ⟨trivial, fun _ => rfl⟩ (by decide)
  have hend : (run.state labels.length).thread 1 = .engineSecondary := by
    decide
  have hmoves : ∀ time < labels.length, ∃ later < labels.length,
      time ≤ later ∧ labels[later]? = some (1, ()) := by
    decide
  refine ⟨run, ?_, by decide, by decide⟩
  intro p hp time hbusy
  obtain rfl : p = 1 := by omega
  by_cases htime : time < labels.length
  · obtain ⟨later, -, hlater, hlabel⟩ := hmoves time htime
    exact ⟨later, hlater, _, hlabel, rfl⟩
  · have hsame : run.state time = run.state labels.length :=
      InfiniteRun.replayed_of_length_le (not_lt.mp htime)
    rw [hsame] at hbusy
    exact absurd hend hbusy

theorem arch_signal_boot_done_opens_two : ∃ run : BootRun (0 : Fin 2),
    (run.state 4).thread 1 = .waiting .test ∧
      ∃ later ≥ 4, (run.state later).thread 1 = .engineSecondary := by
  obtain ⟨run, hfair, hsignalled, hwaits⟩ := exists_bootRun
  exact ⟨run, hwaits, arch_signal_boot_done_opens run hfair hsignalled 1 (by decide)⟩

end Cyancore.Riscv
