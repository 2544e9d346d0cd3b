/-
# The tickets of the bakery lock

A ticket is one more than the largest ticket its core has seen, and it is kept in a
`uint8_t`.  Tickets fall back to small values only when all cores have left the lock at
once, so under continuous contention they grow without bound, and after 255 comes 0: a
core with that ticket waits, or holds the lock, as if it had none.  Tickets are exact in
every run in which no core reads the ticket 255 while it chooses its own.
-/

import Cyancore.Locks.BakeryExclusion

namespace Cyancore.Locks

open Cyancore.Math

variable {n : ℕ}

/-- The core is not about to read the last ticket that fits while it chooses its own. -/
def SeesRoom (_tid : Fin n) (_side : Side) (key : Bakerylock n) : Phase n → Prop
  | .scan i _ => ∀ h : i < n, key.threadCount ⟨i, h⟩ ≠ 255
  | _ => True

/-- A ticket about to be stored is stored as it is, and no core that waits or holds the lock has
the ticket 0. -/
structure TicketsExact (pool : BakeryPool n) : Prop where
  stored : ∀ tid nMax side pool', pool.thread tid = .scan n nMax →
    Pool.step bakeryAct (tid, side) pool = some pool' →
    pool'.shared.threadCount tid = nMax + 1
  nonzero : ∀ tid, (pool.thread tid).Ticketed → pool.shared.threadCount tid ≠ 0

/-! ## Runs that do not meet the ticket 255 -/

/-- What holds of one core as long as no one reads the ticket 255. -/
structure RoomOk (key : Bakerylock n) (_tid : Fin n) (here : Phase n) : Prop where
  count : ∀ p, key.threadCount p ≤ 255
  scanned : ∀ i nMax, here = .scan i nMax → nMax ≤ 254

theorem RoomOk.ticketFits {key : Bakerylock n} {tid : Fin n} {side : Side} {here : Phase n}
    (hok : RoomOk key tid here) : TicketFits tid side key here := by
  cases here with
  | scan i nMax => exact fun _ => Nat.succ_le_succ (hok.scanned i nMax rfl)
  | _ => trivial

theorem threadCount_setCount_le {key : Bakerylock n} {tid : Fin n}
    (hcount : ∀ p, key.threadCount p ≤ 255) (value : ℕ) (p : Fin n) :
    (key.setCount tid value).threadCount p ≤ 255 := by
  by_cases hp : p = tid
  · subst hp
    simp only [Bakerylock.setCount, Function.update_self, toUint8]
    omega
  · simpa [Bakerylock.setCount, hp] using hcount p

/-- Every count stays in the range of its type. -/
theorem BakeryMove.count_le {key key' : Bakerylock n} {tid : Fin n} {here here' : Phase n}
    (hmove : BakeryMove tid key here key' here') (hcount : ∀ p, key.threadCount p ≤ 255) :
    ∀ p, key'.threadCount p ≤ 255 := by
  cases hmove with
  | draw i nMax h => exact threadCount_setCount_le hcount _
  | release => exact threadCount_setCount_le hcount _
  | _ => exact hcount

theorem RoomOk.self {key key' : Bakerylock n} {tid : Fin n} {side : Side} {here here' : Phase n}
    (hok : RoomOk key tid here) (hroom : SeesRoom tid side key here)
    (hmove : BakeryMove tid key here key' here') : RoomOk key' tid here' := by
  refine ⟨hmove.count_le hok.count, ?_⟩
  cases hmove with
  | enter =>
      rintro i nMax h
      cases h
      omega
  | look i nMax hi =>
      rintro j m h
      cases h
      have hread := hroom hi
      have hcount := hok.count ⟨i, hi⟩
      have hbefore := hok.scanned i nMax rfl
      omega
  | skip i h | passOther i _ h | passOwn i _ h =>
      intro j m heq
      have hticket := Phase.ticketed_advance i
      rw [heq] at hticket
      exact hticket.elim
  | _ => exact nofun

theorem room_nonInterfering :
    Pool.NonInterfering (bakeryAct (n := n)) SeesRoom RoomOk fun _ _ _ _ _ => True where
  own_self := by
    intro t c key here key' here' hok hroom hact
    exact hok.self hroom (.of_act hact)
  own_other := by
    intro t c key here key' here' p l _ _ hact _ hok _
    exact ⟨(BakeryMove.of_act hact).count_le hok.count, hok.scanned⟩
  pair_left := fun _ _ _ _ _ _ _ _ _ _ _ _ _ => id
  pair_right := fun _ _ _ _ _ _ _ _ _ _ _ _ _ => id
  pair_other := fun _ _ _ _ _ _ _ _ _ _ _ _ _ _ _ => id

theorem roomOk_of_reachable {pool : BakeryPool n}
    (hreach : (bakerySystem n).Reachable (Pool.localGuard SeesRoom) pool) (tid : Fin n) :
    RoomOk pool.shared tid (pool.thread tid) := by
  have hstart : ∀ key, key = Bakerylock.zero n → ∀ t, RoomOk key t .idle := by
    rintro key rfl t
    exact ⟨fun p => Nat.zero_le 255, nofun⟩
  have hasserts := Pool.asserts_of_reachable room_nonInterfering hstart
    (fun _ _ _ _ _ => trivial) hreach
  exact hasserts.own tid

/-- In every run in which no core reads the ticket 255 while it chooses its own, tickets are
stored as computed and never 0. -/
theorem ticketsExact_of_reachable {pool : BakeryPool n}
    (hreach : (bakerySystem n).Reachable (Pool.localGuard SeesRoom) pool) : TicketsExact pool where
  stored := by
    intro tid nMax side pool' hphase hstep
    obtain ⟨key, here, hact, rfl⟩ := Pool.step_eq_some_iff.mp hstep
    have hscanned := (roomOk_of_reachable hreach tid).scanned n nMax hphase
    simp only [hphase, bakeryAct, lt_irrefl, dite_false, Option.some.injEq, Prod.mk.injEq] at hact
    obtain ⟨rfl, -⟩ := hact
    exact threadCount_setCount_of_fits (Nat.succ_le_succ hscanned)
  nonzero := by
    have hfits : (bakerySystem n).Reachable (Pool.localGuard TicketFits) pool := by
      apply hreach.reguard
      intro label state hstate _
      exact (roomOk_of_reachable hstate label.1).ticketFits
    intro tid hticket
    exact ((asserts_of_bakery hfits).own tid).ticket hticket

instance (tid : Fin n) (side : Side) (key : Bakerylock n) (here : Phase n) :
    Decidable (SeesRoom tid side key here) :=
  match here with
  | .scan i _ => inferInstanceAs (Decidable (∀ h : i < n, key.threadCount ⟨i, h⟩ ≠ 255))
  | .idle | .leaveDoorway | .awaitProtect _ | .testTicket _ | .compare _ _ | .readOther _ _ _
  | .readOwn _ _ _ | .holding => isTrue trivial

theorem ticketsExact_tied : ∃ pool : BakeryPool 2,
    (bakerySystem 2).Reachable (Pool.localGuard SeesRoom) pool ∧
      (pool.thread 0).Ticketed ∧ TicketsExact pool := by
  have hstart : (bakerySystem 2).Reachable (Pool.localGuard SeesRoom) (bakeryIdle 2) :=
    .start ⟨rfl, fun _ => rfl⟩
  have htest : (TransitionSystem.replay (Pool.step bakeryAct) (Pool.localGuard SeesRoom)
      (tiedRun 0 1) (bakeryIdle 2)).any (fun pool => pool.thread 0 = .holding) = true := by
    decide
  obtain ⟨pool, hreach, hpool⟩ := hstart.exists_replay htest
  refine ⟨pool, hreach, ?_, ticketsExact_of_reachable hreach⟩
  rw [of_decide_eq_true hpool]
  trivial

/-! ## Two cores that take turns -/

section Turns

/-- One value for core 0 and one for core 1. -/
def duo {α : Type} (first second : α) (p : Fin 2) : α := if p.val = 0 then first else second

variable {α : Type} (first second value : α)

@[simp]
theorem duo_zero : duo first second 0 = first := rfl

@[simp]
theorem duo_one : duo first second 1 = second := rfl

@[simp]
theorem update_duo_zero : Function.update (duo first second) 0 value = duo value second := by
  ext p
  match p with
  | 0 => rfl
  | 1 => rfl

@[simp]
theorem update_duo_one : Function.update (duo first second) 1 value = duo first value := by
  ext p
  match p with
  | 0 => rfl
  | 1 => rfl

/-- The cores have these tickets and are at these points, and none is in the doorway. -/
def duoPool (count : ℕ × ℕ) (phase : Phase 2 × Phase 2) : BakeryPool 2 :=
  ⟨⟨duo count.1 count.2, duo false false⟩, duo phase.1 phase.2⟩

/-- One access of each of the listed cores, in this order. -/
def follow (cores : List (Fin 2)) : BakeryPool 2 → Option (BakeryPool 2) :=
  TransitionSystem.replay (Pool.step bakeryAct) (fun _ _ => True)
    (cores.map fun core => (core, .other))

@[simp]
theorem follow_nil (pool : BakeryPool 2) : follow [] pool = some pool := rfl

@[simp]
theorem follow_cons (core : Fin 2) (cores : List (Fin 2)) (pool : BakeryPool 2) :
    follow (core :: cores) pool =
      (Pool.step bakeryAct (core, .other) pool).bind (follow cores) := by
  simp [follow, TransitionSystem.replay]

/-- The pools that two cores can get to. -/
abbrev DuoReachable : BakeryPool 2 → Prop := (bakerySystem 2).Reachable fun _ _ => True

theorem DuoReachable.follow {pool pool' : BakeryPool 2} (hreach : DuoReachable pool)
    {cores : List (Fin 2)} (hfollow : follow cores pool = some pool') : DuoReachable pool' :=
  hreach.replay hfollow

theorem duoReachable_idle : DuoReachable (duoPool (0, 0) (.idle, .idle)) := by
  have hzero : ∀ {β : Type} (value : β), duo value value = fun _ => value := by
    intro β value
    ext p
    match p with
    | 0 => rfl
    | 1 => rfl
  refine .start ⟨?_, fun t => ?_⟩
  · simp only [duoPool, hzero]
    rfl
  · simp only [duoPool, hzero]

variable {ticket : ℕ}

/-- Core 1 draws its ticket while core 0 holds the lock, and gets the lock when core 0 releases
it. -/
theorem DuoReachable.turnToOne (hpos : 0 < ticket) (hroom : ticket + 1 ≤ 255)
    (hreach : DuoReachable (duoPool (ticket, 0) (.holding, .idle))) :
    DuoReachable (duoPool (0, ticket + 1) (.idle, .holding)) := by
  have hfits : toUint8 (ticket + 1) = ticket + 1 := Nat.mod_eq_of_lt (by omega)
  have hzero : toUint8 0 = 0 := rfl
  have hdraw : Locks.follow [1, 1, 1, 1, 1] (duoPool (ticket, 0) (.holding, .idle)) =
      some (duoPool (ticket, ticket + 1) (.holding, .awaitProtect 0)) := by
    simp [duoPool, Pool.step, bakeryAct, Bakerylock.setProtect, Bakerylock.setCount, hpos, hfits]
  have hother : Locks.follow [0, 1, 1, 1, 1]
      (duoPool (ticket, ticket + 1) (.holding, .awaitProtect 0)) =
      some (duoPool (0, ticket + 1) (.idle, .compare .less 1)) := by
    simp [duoPool, Pool.step, bakeryAct, Bakerylock.setCount, hzero, Phase.advance]
  have hself : Locks.follow [1, 1, 1, 1] (duoPool (0, ticket + 1) (.idle, .compare .less 1)) =
      some (duoPool (0, ticket + 1) (.idle, .holding)) := by
    simp [duoPool, Pool.step, bakeryAct, Phase.advance,
      Phase.decideTest]
  exact ((hreach.follow hdraw).follow hother).follow hself

/-- The same with the cores exchanged. -/
theorem DuoReachable.turnToZero (hpos : 0 < ticket) (hroom : ticket + 1 ≤ 255)
    (hreach : DuoReachable (duoPool (0, ticket) (.idle, .holding))) :
    DuoReachable (duoPool (ticket + 1, 0) (.holding, .idle)) := by
  have hfits : toUint8 (ticket + 1) = ticket + 1 := Nat.mod_eq_of_lt (by omega)
  have hzero : toUint8 0 = 0 := rfl
  have hdraw : Locks.follow [0, 0, 0, 0, 0] (duoPool (0, ticket) (.idle, .holding)) =
      some (duoPool (ticket + 1, ticket) (.awaitProtect 0, .holding)) := by
    simp [duoPool, Pool.step, bakeryAct, Bakerylock.setProtect, Bakerylock.setCount, hpos, hfits]
  have hself : Locks.follow [0, 0, 0, 0]
      (duoPool (ticket + 1, ticket) (.awaitProtect 0, .holding)) =
      some (duoPool (ticket + 1, ticket) (.compare .equal 0, .holding)) := by
    simp [duoPool, Pool.step, bakeryAct, Phase.decideTest]
  have hother : Locks.follow [0, 0, 1, 0, 0]
      (duoPool (ticket + 1, ticket) (.compare .equal 0, .holding)) =
      some (duoPool (ticket + 1, 0) (.holding, .idle)) := by
    simp [duoPool, Pool.step, bakeryAct, Bakerylock.setCount, hzero, Phase.advance,
      Phase.decideTest]
  exact ((hreach.follow hdraw).follow hself).follow hother

/-- As long as the tickets fit, two cores that take turns drive them up. -/
theorem duoReachable_turns (turns : ℕ) (hroom : 2 * turns + 1 ≤ 255) :
    DuoReachable (duoPool (2 * turns + 1, 0) (.holding, .idle)) := by
  induction turns with
  | zero =>
      -- core 0 comes first and meets no ticket
      have hdraw : Locks.follow [0, 0, 0, 0, 0] (duoPool (0, 0) (.idle, .idle)) =
          some (duoPool (1, 0) (.awaitProtect 0, .idle)) := by
        simp [duoPool, Pool.step, bakeryAct, Bakerylock.setProtect, Bakerylock.setCount, toUint8]
      have hself : Locks.follow [0, 0, 0, 0, 0] (duoPool (1, 0) (.awaitProtect 0, .idle)) =
          some (duoPool (1, 0) (.readOther .equal 0 1, .idle)) := by
        simp [duoPool, Pool.step, bakeryAct, Phase.decideTest]
      have hother : Locks.follow [0, 0, 0] (duoPool (1, 0) (.readOther .equal 0 1, .idle)) =
          some (duoPool (1, 0) (.holding, .idle)) := by
        simp [duoPool, Pool.step, bakeryAct, Phase.advance, Phase.decideTest]
      exact ((duoReachable_idle.follow hdraw).follow hself).follow hother
  | succ turns ih =>
      have hone := (ih (by omega)).turnToOne (by omega) (by omega)
      exact hone.turnToZero (by omega) (by omega)

end Turns

/-- Two cores that take turns get to the ticket 255; the next one is stored as 0. -/
theorem exists_reachable_not_ticketsExact :
    ∃ pool : BakeryPool 2, (bakerySystem 2).Reachable (fun _ _ => True) pool ∧
      ¬ TicketsExact pool := by
  have hheld : DuoReachable (duoPool (255, 0) (.holding, .idle)) :=
    duoReachable_turns 127 (by omega)
  have hdraw : follow [1, 1, 1, 1] (duoPool (255, 0) (.holding, .idle)) =
      some ⟨⟨duo 255 0, duo false true⟩, duo .holding .leaveDoorway⟩ := by
    simp [duoPool, Pool.step, bakeryAct, Bakerylock.setProtect, Bakerylock.setCount, toUint8]
  refine ⟨_, hheld.follow hdraw, fun hexact => ?_⟩
  exact hexact.nonzero 1 trivial rfl

end Cyancore.Locks
