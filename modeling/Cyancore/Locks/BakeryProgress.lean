/-
# The bakery lock serves every core

In a run in which every core that uses the lock moves again and again, and in which no
ticket is truncated, every core that starts `bakerylock_acquire` returns from it.  By
induction on the order of the tickets: the cores in front of a waiting core get the lock
and release it, and whoever comes back later draws a larger ticket.  So if a core waited
forever, the lock would stop changing, and then nothing could stop that core.
-/

import Cyancore.Locks.BakeryOrder
import Cyancore.Math.InfiniteRun
import Mathlib.Order.Filter.AtTopBot.Basic
import Mathlib.Order.Filter.Finite

namespace Cyancore.Locks

open Cyancore.Math

variable {n : ℕ} {key key' : Bakerylock n} {p q tid : Fin n} {side : Side}
  {here here' : Phase n} {pool pool' : BakeryPool n}

/-! ## Where a core is on its way -/

/-- The core is in the second loop. -/
def Phase.Waiting : Phase n → Prop
  | .awaitProtect _ | .testTicket _ | .compare _ _ | .readOther _ _ _ | .readOwn _ _ _ => True
  | _ => False

theorem Phase.waiting_advance (i : Fin n) :
    (Phase.advance i).Waiting ∨ Phase.advance i = .holding := by
  rcases Phase.advance_cases i with ⟨heq, -⟩ | ⟨j, heq, -⟩
  · exact .inr heq
  · exact .inl (heq ▸ trivial)

theorem Phase.Waiting.ticketed (hwaiting : here.Waiting) : here.Ticketed := by
  cases here with
  | idle | scan | leaveDoorway | holding => exact hwaiting.elim
  | _ => trivial

theorem Phase.Waiting.not_inDoorway (hwaiting : here.Waiting) : ¬ here.InDoorway := by
  cases here with
  | idle | scan | leaveDoorway | holding => exact hwaiting.elim
  | _ => exact id

/-- The phases of a core, in the order in which it comes through them. -/
theorem Phase.cases_stage (here : Phase n) :
    here = .idle ∨ here.InDoorway ∨ here.Waiting ∨ here = .holding := by
  cases here with
  | idle => exact .inl rfl
  | scan | leaveDoorway => exact .inr (.inl trivial)
  | holding => exact .inr (.inr (.inr rfl))
  | _ => exact .inr (.inr (.inl trivial))

/-- A waiting core only reads. -/
theorem BakeryMove.waiting (hmove : BakeryMove tid key here key' here') (h : here.Waiting) :
    key' = key ∧ (here'.Waiting ∨ here' = .holding) := by
  cases hmove with
  | enter | look | draw | leave | release => exact h.elim
  | skip i _ | passOther i _ _ | passOwn i _ _ => exact ⟨rfl, Phase.waiting_advance i⟩
  | _ => exact ⟨rfl, .inl trivial⟩

theorem BakeryMove.holding (hmove : BakeryMove tid key .holding key' here') : here' = .idle := by
  cases hmove
  rfl

/-- How many moves the core has before it leaves the doorway. -/
def Phase.doorwayLeft : Phase n → ℕ
  | .scan i _ => n - i + 1
  | _ => 0

theorem BakeryMove.doorway (hmove : BakeryMove tid key here key' here') (h : here.InDoorway) :
    here'.InDoorway ∧ here'.doorwayLeft < here.doorwayLeft ∨ here'.Waiting := by
  cases hmove with
  | look i nMax hi =>
      refine .inl ⟨trivial, ?_⟩
      simp only [Phase.doorwayLeft]
      omega
  | draw i nMax hi => exact .inl ⟨trivial, Nat.succ_pos _⟩
  | leave => exact .inr trivial
  | _ => exact h.elim

/-! ## A core that nothing stops -/

/-- No core is choosing a ticket, and every other core that has one comes after core `p`. -/
structure Served (key : Bakerylock n) (p : Fin n) : Prop where
  unprotected : ∀ i, key.protect i = false
  later : ∀ i, i ≠ p → key.threadCount i = 0 ∨ key.rank p < key.rank i

/-- Neither comparison of the inner loop turns core `p` back. -/
theorem Served.pass (hserved : Served key p) {i : Fin n} (hticket : key.threadCount i ≠ 0) :
    key.threadCount p ≤ key.threadCount i ∧ ¬ (key.threadCount i = key.threadCount p ∧ i < p) := by
  by_cases hi : i = p
  · subst hi
    exact ⟨le_rfl, fun h => lt_irrefl _ h.2⟩
  · have hrank := (hserved.later i hi).resolve_left hticket
    rw [Bakerylock.rank_lt_iff] at hrank
    rcases hrank with hlt | ⟨heq, hlt⟩
    · exact ⟨hlt.le, fun h => hlt.ne' h.1⟩
    · exact ⟨heq.le, fun h => lt_asymm hlt h.2⟩

/-- Whether the core may still be turned back by what it read before. -/
def Phase.stale (key : Bakerylock n) : Phase n → ℕ
  | .compare _ i | .readOwn _ i _ => if key.threadCount i = 0 then 8 else 0
  | .readOther _ i other =>
      if key.threadCount i = 0 ∨ other ≠ key.threadCount i then 8 else 0
  | _ => 0

/-- How far the core is from holding the lock. -/
def Phase.distance : Phase n → ℕ
  | .awaitProtect i => 8 * (n - i) + 7
  | .testTicket i => 8 * (n - i) + 6
  | .compare .less i => 8 * (n - i) + 5
  | .readOther .less i _ | .readOwn .less i _ => 8 * (n - i) + 4
  | .compare .equal i => 8 * (n - i) + 3
  | .readOther .equal i _ | .readOwn .equal i _ => 8 * (n - i) + 2
  | _ => 0

/-- How many moves a core that nothing stops still needs, at most. -/
def Phase.remaining (key : Bakerylock n) (here : Phase n) : ℕ := here.distance + here.stale key

theorem Phase.remaining_advance {i : Fin n} :
    Phase.advance i = .holding ∨ (Phase.advance i).remaining key < 8 * (n - i) := by
  rcases Phase.advance_cases i with ⟨heq, -⟩ | ⟨j, heq, hnext⟩
  · exact .inl heq
  · have hj := j.isLt
    refine .inr ?_
    rw [heq]
    simp only [remaining, distance, stale]
    omega

/-- A comparison goes back only if a move is spent on what is stale. -/
theorem Phase.remaining_decideTest (tid : Fin n) (test : Test) {i : Fin n}
    {other own spare : ℕ}
    (hzero : key.threadCount i = 0 → 8 ≤ spare) (hless : other < own → 8 ≤ spare)
    (hequal : other = own ∧ i < tid → 8 ≤ spare) :
    decideTest test tid i other own = .holding ∨
      (decideTest test tid i other own).remaining key < (readOwn test i own).distance + spare := by
  cases test with
  | less =>
      refine .inr ?_
      rw [decideTest]
      split
      · have hspare := hless ‹_›
        simp only [remaining, distance, stale]
        omega
      · simp only [remaining, distance, stale]
        split
        · have hspare := hzero ‹_›
          omega
        · omega
  | equal =>
      rw [decideTest]
      split
      · have hspare := hequal ‹_›
        refine .inr ?_
        simp only [remaining, distance, stale]
        omega
      · refine remaining_advance.imp_right fun h => h.trans_le ?_
        simp only [distance]
        omega

/-- The moves of a waiting core that nothing stops bring it nearer to the lock. -/
theorem Served.remaining_lt (hserved : Served key tid)
    (hact : bakeryAct tid side key here = some (key', here')) (hwaiting : here.Waiting)
    (hown : CoreOk key tid here) :
    here' = .holding ∨ here'.remaining key < here.remaining key := by
  cases here with
  | idle | scan | leaveDoorway | holding => exact hwaiting.elim
  | awaitProtect i =>
      simp only [bakeryAct, hserved.unprotected i, Bool.false_eq_true, if_false] at hact
      obtain ⟨rfl, rfl⟩ := Prod.mk.inj (Option.some.inj hact)
      refine .inr ?_
      simp only [Phase.remaining, Phase.distance, Phase.stale]
      omega
  | testTicket i =>
      rw [bakeryAct] at hact
      split at hact
      · obtain ⟨rfl, rfl⟩ := Prod.mk.inj (Option.some.inj hact)
        refine Phase.remaining_advance.imp_right fun h => h.trans_le ?_
        simp only [Phase.remaining, Phase.distance]
        omega
      · rename_i hticket
        obtain ⟨rfl, rfl⟩ := Prod.mk.inj (Option.some.inj hact)
        refine .inr ?_
        simp only [Phase.remaining, Phase.distance, Phase.stale, hticket, if_false]
        omega
  | compare test i =>
      refine .inr ?_
      cases side with
      | other =>
          obtain ⟨rfl, rfl⟩ := Prod.mk.inj (Option.some.inj hact)
          cases test <;> simp [Phase.remaining, Phase.distance, Phase.stale]
      | own =>
          obtain ⟨rfl, rfl⟩ := Prod.mk.inj (Option.some.inj hact)
          cases test <;> simp [Phase.remaining, Phase.distance, Phase.stale]
  | readOther test i other =>
      obtain ⟨rfl, rfl⟩ := Prod.mk.inj (Option.some.inj hact)
      have hfresh : ¬ 8 ≤ (Phase.readOther test i other).stale key →
          key.threadCount i ≠ 0 ∧ other = key.threadCount i := by
        simp only [Phase.stale]
        grind
      have hpass : ¬ 8 ≤ (Phase.readOther test i other).stale key →
          key.threadCount tid ≤ other ∧ ¬ (other = key.threadCount tid ∧ i < tid) := by
        intro hstale
        obtain ⟨hticket, rfl⟩ := hfresh hstale
        exact hserved.pass hticket
      have hnext := Phase.remaining_decideTest tid test
        (fun h => not_not.mp fun hstale => (hfresh hstale).1 h)
        (fun h => not_not.mp fun hstale => absurd h (not_lt.mpr (hpass hstale).1))
        (fun h => not_not.mp fun hstale => (hpass hstale).2 h)
      cases test with
      | less | equal => exact hnext
  | readOwn test i own =>
      obtain ⟨rfl, rfl⟩ := Prod.mk.inj (Option.some.inj hact)
      obtain rfl := hown.own test i own rfl
      have hfresh : ¬ 8 ≤ (Phase.readOwn test i (key.threadCount tid)).stale key →
          key.threadCount i ≠ 0 := by
        simp only [Phase.stale]
        grind
      exact Phase.remaining_decideTest tid test
        (fun h => not_not.mp fun hstale => hfresh hstale h)
        (fun h => not_not.mp fun hstale =>
          absurd h (not_lt.mpr (hserved.pass (hfresh hstale)).1))
        (fun h => not_not.mp fun hstale => (hserved.pass (hfresh hstale)).2 h)

/-! ## Cores that are not at the counter -/

/-- A core outside the doorway is not protected, and a core without a ticket has the count 0. -/
structure RestOk (key : Bakerylock n) (p : Fin n) (here : Phase n) : Prop where
  unprotected : ¬ here.InDoorway → key.protect p = false
  ticketless : ¬ here.Ticketed → key.threadCount p = 0

theorem RestOk.self (hok : RestOk key tid here) (hmove : BakeryMove tid key here key' here') :
    RestOk key' tid here' := by
  cases hmove with
  | enter => exact ⟨fun h => absurd trivial h, fun _ => hok.ticketless id⟩
  | look i nMax hi => exact ⟨fun h => absurd trivial h, fun _ => hok.ticketless id⟩
  | draw i nMax hi => exact ⟨fun h => absurd trivial h, fun h => absurd trivial h⟩
  | leave => exact ⟨fun _ => Function.update_self .., fun h => absurd trivial h⟩
  | skip i _ | passOther i _ _ | passOwn i _ _ =>
      exact ⟨fun _ => hok.unprotected id, fun h => absurd (Phase.ticketed_advance i) h⟩
  | release => exact ⟨fun _ => hok.unprotected id, fun _ => Function.update_self ..⟩
  | _ => exact ⟨fun _ => hok.unprotected id, fun h => absurd trivial h⟩

theorem rest_nonInterfering :
    Pool.NonInterfering (bakeryAct (n := n)) TicketFits RestOk fun _ _ _ _ _ => True where
  own_self := fun _ _ _ _ _ _ hok _ hact => hok.self (.of_act hact)
  own_other := by
    intro t c key here key' here' p l _ _ hact hne hok _
    obtain ⟨hcount, hprotect⟩ := (BakeryMove.of_act hact).frame hne
    exact ⟨hprotect ▸ hok.unprotected, hcount ▸ hok.ticketless⟩
  pair_left := fun _ _ _ _ _ _ _ _ _ _ _ _ _ => id
  pair_right := fun _ _ _ _ _ _ _ _ _ _ _ _ _ => id
  pair_other := fun _ _ _ _ _ _ _ _ _ _ _ _ _ _ _ => id

theorem restOk_of_reachable
    (hreach : (bakerySystem n).Reachable (Pool.localGuard TicketFits) pool) (p : Fin n) :
    RestOk pool.shared p (pool.thread p) := by
  have hstart : ∀ key, key = Bakerylock.zero n → ∀ t, RestOk key t .idle := by
    rintro key rfl t
    exact ⟨fun _ => rfl, fun _ => rfl⟩
  exact (Pool.asserts_of_reachable rest_nonInterfering hstart (fun _ _ _ _ _ => trivial)
    hreach).own p

/-! ## Fair runs -/

/-- An infinite run in which no ticket is truncated. -/
abbrev BakeryRun (n : ℕ) := InfiniteRun (bakerySystem n) (Pool.localGuard TicketFits)

/-- Every core that uses the lock moves again. -/
def BakeryRun.Fair (run : BakeryRun n) : Prop :=
  ∀ p time, (run.state time).thread p ≠ .idle →
    ∃ later ≥ time, ∃ side, run.label later = some (p, side)

variable {run : BakeryRun n} {time start : ℕ}

theorem BakeryRun.Fair.often (hfair : BakeryRun.Fair run)
    (hbusy : (run.state time).thread p ≠ .idle) :
    ∃ later ≥ time, ∃ l, run.label later = some l ∧ l.1 = p := by
  obtain ⟨later, hlater, side, hlabel⟩ := hfair p time hbusy
  exact ⟨later, hlater, _, hlabel, rfl⟩

theorem BakeryRun.moved (hlabel : run.label time = some (p, side)) :
    BakeryMove p (run.state time).shared ((run.state time).thread p)
      (run.state (time + 1)).shared ((run.state (time + 1)).thread p) :=
  .of_act (InfiniteRun.act_of_label hlabel)

/-- A core is where it was, or has moved. -/
theorem BakeryRun.moved_or_same (run : BakeryRun n) (p : Fin n) (time : ℕ) :
    (∃ side, run.label time = some (p, side)) ∨
      (run.state (time + 1)).thread p = (run.state time).thread p := by
  by_cases h : ∃ side, run.label time = some (p, side)
  · exact .inl h
  · exact .inr (InfiniteRun.thread_of_other fun c hc => h ⟨c, hc⟩)

theorem BakeryRun.same_of_other (hlabel : run.label time = some (tid, side)) (hne : tid ≠ p) :
    (run.state (time + 1)).thread p = (run.state time).thread p := by
  refine InfiniteRun.thread_of_other fun c hc => hne ?_
  rw [hlabel, Option.some.injEq] at hc
  exact congrArg Prod.fst hc

/-- A core in the doorway gets out of it. -/
theorem BakeryRun.exists_waiting (hfair : BakeryRun.Fair run)
    (hdoor : ((run.state start).thread p).InDoorway) :
    ∃ later ≥ start, ((run.state later).thread p).Waiting := by
  have hbusy : ∀ time, ((run.state time).thread p).InDoorway →
      (run.state time).thread p ≠ .idle := by
    intro time h heq
    rw [heq] at h
    exact h
  have hless : ∀ time ≥ start, ∀ l, run.label time = some l →
      ((run.state time).thread p).InDoorway → ((run.state (time + 1)).thread p).InDoorway →
        ((run.state (time + 1)).thread p).doorwayLeft ≤ ((run.state time).thread p).doorwayLeft ∧
          (l.1 = p → ((run.state (time + 1)).thread p).doorwayLeft <
            ((run.state time).thread p).doorwayLeft) := by
    rintro time - ⟨tid, side⟩ hlabel hstay hstill
    by_cases htid : tid = p
    · subst htid
      have hmove := ((moved hlabel).doorway hstay).resolve_right fun h =>
        h.not_inDoorway hstill
      exact ⟨hmove.2.le, fun _ => hmove.2⟩
    · rw [same_of_other hlabel htid]
      exact ⟨le_rfl, fun h => absurd h htid⟩
  obtain ⟨time, htime, hstay, hleft⟩ := run.exists_last (fun pool => (pool.thread p).InDoorway)
    (fun pool => (pool.thread p).doorwayLeft) (fun l => l.1 = p) hdoor
    (fun time _ h => hfair.often (hbusy time h)) hless
  rcases run.moved_or_same p time with ⟨side, hlabel⟩ | hsame
  · exact ⟨time + 1, by omega, ((moved hlabel).doorway hstay).resolve_left fun h => hleft h.1⟩
  · exact absurd (hsame ▸ hstay) hleft

/-- A core that holds the lock releases it. -/
theorem BakeryRun.exists_idle (hfair : BakeryRun.Fair run)
    (hholds : (run.state start).thread p = .holding) :
    ∃ later ≥ start, (run.state later).thread p = .idle := by
  have hrelease : ∀ time side, run.label time = some (p, side) →
      (run.state time).thread p = .holding → (run.state (time + 1)).thread p = .idle := by
    intro time side hlabel hstay
    have hmove := moved hlabel
    rw [hstay] at hmove
    exact hmove.holding
  obtain ⟨time, htime, hstay, hleft⟩ := run.exists_last (fun pool => pool.thread p = .holding)
    (fun _ => 0) (fun l => l.1 = p) hholds
    (fun time _ h => hfair.often (by rw [h]; nofun)) (by
      rintro time - ⟨tid, side⟩ hlabel hstay hstill
      refine ⟨le_rfl, ?_⟩
      rintro rfl
      rw [hrelease time side hlabel hstay] at hstill
      cases hstill)
  rcases run.moved_or_same p time with ⟨side, hlabel⟩ | hsame
  · exact ⟨time + 1, by omega, hrelease time side hlabel hstay⟩
  · exact absurd (hsame ▸ hstay) hleft

/-! ## A core that waited forever -/

/-- Core `p` waits from a time on, although every core that waits in front of it gets the lock. -/
structure Starves (run : BakeryRun n) (p : Fin n) (start : ℕ) : Prop where
  waiting : ∀ time ≥ start, ((run.state time).thread p).Waiting
  front : ∀ q, ∀ time ≥ start, ((run.state time).thread q).Waiting →
    (run.state time).shared.rank q < (run.state time).shared.rank p →
      ∃ later ≥ time, (run.state later).thread q = .holding

/-- At some time every other core is behind the one that starves. -/
theorem Starves.exists_follows (hstarves : Starves run p start) (hfair : BakeryRun.Fair run)
    (hne : p ≠ q) : ∃ time ≥ start, Follows p q (run.state time) := by
  have hticket : ∀ time ≥ start, ((run.state time).thread p).Ticketed :=
    fun time htime => (hstarves.waiting time htime).ticketed
  have hholding : ∀ time ≥ start, (run.state time).thread q = .holding →
      ∃ later ≥ start, Follows p q (run.state later) := by
    intro time htime hholds
    obtain ⟨later, hlater, hidle⟩ := BakeryRun.exists_idle hfair hholds
    exact ⟨later, by omega, .of_idle (hticket later (by omega)) hidle⟩
  have hwaiting : ∀ time ≥ start, ((run.state time).thread q).Waiting →
      ∃ later ≥ start, Follows p q (run.state later) := by
    intro time htime hwaits
    rcases lt_or_ge ((run.state time).shared.rank q) ((run.state time).shared.rank p) with hlt | hge
    · obtain ⟨later, hlater, hholds⟩ := hstarves.front q time htime hwaits hlt
      exact hholding later (by omega) hholds
    · have hrank : (run.state time).shared.rank p ≠ (run.state time).shared.rank q := by
        intro h
        exact hne (congrArg (fun r => (ofLex r).2) h)
      exact ⟨time, htime, hticket time htime,
        .of_ticketed hwaits.ticketed (lt_of_le_of_ne hge hrank)⟩
  rcases ((run.state start).thread q).cases_stage with h | h | h | h
  · exact ⟨start, le_rfl, .of_idle (hticket start le_rfl) h⟩
  · obtain ⟨time, htime, hwaits⟩ := BakeryRun.exists_waiting hfair h
    exact hwaiting time htime hwaits
  · exact hwaiting start le_rfl h
  · exact hholding start le_rfl h

theorem Starves.follows_stays (hstarves : Starves run p start) (hne : p ≠ q)
    (htime : start ≤ time) (hfollows : Follows p q (run.state time)) :
    ∀ later ≥ time, Follows p q (run.state later) := by
  apply run.stays (Follows p q) hfollows
  rintro later hlater ⟨tid, side⟩ hlabel h
  refine h.step hne (run.guarded later _ hlabel) (fun _ hholds => ?_) (run.move later _ hlabel)
  have hwaiting := hstarves.waiting later (by omega)
  rw [hholds] at hwaiting
  exact hwaiting

/-- From some time on a core behind the one that starves is idle, or waits. -/
theorem Starves.exists_quiet (hstarves : Starves run p start) (hfair : BakeryRun.Fair run)
    (q : Fin n) : ∃ time, ∀ later ≥ time, (p ≠ q → Follows p q (run.state later)) ∧
      ((run.state later).thread q = .idle ∨ ((run.state later).thread q).Waiting) := by
  by_cases hne : p = q
  · subst hne
    exact ⟨start, fun later hlater => ⟨fun h => absurd rfl h, .inr (hstarves.waiting later hlater)⟩⟩
  obtain ⟨first, hfirst, hfollows⟩ := hstarves.exists_follows hfair hne
  have hbehind := hstarves.follows_stays hne hfirst hfollows
  have hnever : ∀ later ≥ first, (run.state later).thread q ≠ .holding :=
    fun later hlater => (hbehind later hlater).not_holding hne (run.reachable later)
  -- a core that waits behind another one goes on waiting
  have hwaits : ∀ time ≥ first, ((run.state time).thread q).Waiting →
      ∀ later ≥ time, ((run.state later).thread q).Waiting := by
    intro time htime hwaiting
    apply run.stays (fun pool => (pool.thread q).Waiting) hwaiting
    rintro later hlater l - hstill
    rcases run.moved_or_same q later with ⟨side, hmoves⟩ | hsame
    · exact ((BakeryRun.moved hmoves).waiting hstill).2.resolve_right
        (hnever (later + 1) (by omega))
    · exact hsame ▸ hstill
  by_cases hidle : ∀ later ≥ first, (run.state later).thread q = .idle
  · exact ⟨first, fun later hlater => ⟨fun _ => hbehind later hlater, .inl (hidle later hlater)⟩⟩
  · push Not at hidle
    obtain ⟨time, htime, hbusy⟩ := hidle
    have hin : ∃ later ≥ time, ((run.state later).thread q).Waiting := by
      rcases ((run.state time).thread q).cases_stage with h | h | h | h
      · exact absurd h hbusy
      · exact BakeryRun.exists_waiting hfair h
      · exact ⟨time, le_rfl, h⟩
      · exact absurd h (hnever time htime)
    obtain ⟨later, hlater, hwaiting⟩ := hin
    exact ⟨later, fun last hlast =>
      ⟨fun _ => hbehind last (by omega), .inr (hwaits later (by omega) hwaiting last hlast)⟩⟩

/-- From some time on nothing stops the core that starves, and nobody writes to the lock. -/
theorem Starves.exists_served (hstarves : Starves run p start) (hfair : BakeryRun.Fair run) :
    ∃ time ≥ start, ∀ later ≥ time, Served (run.state later).shared p ∧
      (run.state (later + 1)).shared = (run.state later).shared := by
  have hquiet := Filter.eventually_all.mpr fun q =>
    Filter.eventually_atTop.mpr (hstarves.exists_quiet hfair q)
  obtain ⟨time, htime⟩ := Filter.eventually_atTop.mp hquiet
  refine ⟨max time start, le_max_right _ _, fun later hlater => ?_⟩
  have hlater := (le_max_left time start).trans hlater
  have hrest := restOk_of_reachable (run.reachable later)
  refine ⟨⟨fun q => ?_, fun q hne => ?_⟩, ?_⟩
  · refine (hrest q).unprotected ?_
    rcases (htime later hlater q).2 with h | h
    · rw [h]
      exact id
    · exact h.not_inDoorway
  · rcases (htime later hlater q).2 with h | h
    · refine .inl ((hrest q).ticketless ?_)
      rw [h]
      exact id
    · exact .inr (((htime later hlater q).1 hne.symm).clears.order h.ticketed)
  · cases hlabel : run.label later with
    | none => rw [run.rest later hlabel]
    | some l =>
        have hmove := BakeryRun.moved hlabel
        rcases (htime later hlater l.1).2 with h | h
        · -- an idle core does not start any more
          rw [h] at hmove
          have hnext := (htime (later + 1) (by omega) l.1).2
          generalize (run.state (later + 1)).thread l.1 = here at hmove hnext
          generalize (run.state (later + 1)).shared = key at hmove
          cases hmove
          rcases hnext with hnext | hnext
          · cases hnext
          · exact hnext.elim
        · exact (hmove.waiting h).1

theorem Starves.false (hstarves : Starves run p start) (hfair : BakeryRun.Fair run) : False := by
  obtain ⟨time, htime, hserved⟩ := hstarves.exists_served hfair
  have hwaiting : ∀ later ≥ time, ((run.state later).thread p).Waiting :=
    fun later hlater => hstarves.waiting later (by omega)
  have hless : ∀ later ≥ time, ∀ l, run.label later = some l →
      ((run.state later).thread p).Waiting → ((run.state (later + 1)).thread p).Waiting →
        ((run.state (later + 1)).thread p).remaining (run.state (later + 1)).shared ≤
            ((run.state later).thread p).remaining (run.state later).shared ∧
          (l.1 = p →
            ((run.state (later + 1)).thread p).remaining (run.state (later + 1)).shared <
              ((run.state later).thread p).remaining (run.state later).shared) := by
    rintro later hlater ⟨tid, side⟩ hlabel hstay hstill
    obtain ⟨hpass, hsame⟩ := hserved later hlater
    by_cases htid : tid = p
    · subst htid
      have hown := (asserts_of_bakery (run.reachable later)).own tid
      have hnear := hpass.remaining_lt (InfiniteRun.act_of_label hlabel) hstay hown
      have hmove := hnear.resolve_left fun h => by
        rw [h] at hstill
        exact hstill
      rw [hsame]
      exact ⟨hmove.le, fun _ => hmove⟩
    · rw [hsame, BakeryRun.same_of_other hlabel htid]
      exact ⟨le_rfl, fun h => absurd h htid⟩
  obtain ⟨last, hlast, -, hleft⟩ := run.exists_last (fun pool => (pool.thread p).Waiting)
    (fun pool => (pool.thread p).remaining pool.shared) (fun l => l.1 = p)
    (hwaiting time le_rfl)
    (fun later hlater h => hfair.often (fun hidle => by rw [hidle] at h; exact h)) hless
  exact hleft (hwaiting (last + 1) (by omega))

theorem BakeryRun.exists_holding (hfair : BakeryRun.Fair run) (p : Fin n)
    (hwaits : ((run.state start).thread p).Waiting) :
    ∃ later ≥ start, (run.state later).thread p = .holding := by
  induction hrank : (run.state start).shared.rank p using WellFoundedLT.induction
    generalizing p start with
  | ind rank ih =>
      by_contra hnever
      push Not at hnever
      have hwaiting : ∀ time ≥ start, ((run.state time).thread p).Waiting ∧
          (run.state time).shared.rank p = rank := by
        apply run.stays (fun pool => (pool.thread p).Waiting ∧ pool.shared.rank p = rank)
          ⟨hwaits, hrank⟩
        rintro time htime ⟨tid, side⟩ hlabel ⟨hstill, hsame⟩
        by_cases htid : tid = p
        · subst htid
          obtain ⟨hkey, hnext⟩ := (moved hlabel).waiting hstill
          exact ⟨hnext.resolve_right (hnever (time + 1) (by omega)), hkey ▸ hsame⟩
        · have hframe := ((moved hlabel).frame (Ne.symm htid)).1
          rw [same_of_other hlabel htid]
          refine ⟨hstill, ?_⟩
          rw [← hsame, Bakerylock.rank, Bakerylock.rank, hframe]
      have hstarves : Starves run p start := by
        refine ⟨fun time htime => (hwaiting time htime).1, ?_⟩
        intro q time htime hq hlt
        rw [(hwaiting time htime).2] at hlt
        exact ih _ hlt q hq rfl
      exact hstarves.false hfair

/-- Every core that has started `bakerylock_acquire` returns from it, in every run in which no
ticket is truncated and every core that uses the lock goes on moving. -/
theorem bakerylock_serves_all (run : BakeryRun n) (hfair : run.Fair) (p : Fin n) (time : ℕ)
    (hbusy : (run.state time).thread p ≠ .idle) :
    ∃ later ≥ time, (run.state later).thread p = .holding := by
  rcases ((run.state time).thread p).cases_stage with h | h | h | h
  · exact absurd h hbusy
  · obtain ⟨middle, hmiddle, hwaits⟩ := BakeryRun.exists_waiting hfair h
    obtain ⟨later, hlater, hholds⟩ := BakeryRun.exists_holding hfair p hwaits
    exact ⟨later, by omega, hholds⟩
  · exact BakeryRun.exists_holding hfair p h
  · exact ⟨time, le_rfl, h⟩

/-- Two cores draw the same ticket, and are served one after the other. -/
theorem exists_tiedRun : ∃ run : BakeryRun 2, run.Fair ∧
    (run.state 8).thread 1 = .leaveDoorway := by
  let labels : List (Fin 2 × Side) :=
    tiedRun 0 1 ++ (0 :: List.replicate 8 1).map fun core => (core, .other)
  let run : BakeryRun 2 := .ofReplay labels (bakeryIdle 2) ⟨rfl, fun _ => rfl⟩ (by decide)
  have hend : ∀ p, (run.state labels.length).thread p = .idle := by
    decide
  have hmoves : ∀ time < labels.length, ∀ p, (run.state time).thread p ≠ .idle →
      ∃ later < labels.length, time ≤ later ∧ labels[later]? = some (p, .other) := by
    decide
  refine ⟨run, ?_, by decide⟩
  intro p time hbusy
  by_cases htime : time < labels.length
  · obtain ⟨later, -, hlater, hlabel⟩ := hmoves time htime p hbusy
    exact ⟨later, hlater, .other, hlabel⟩
  · have hsame : run.state time = run.state labels.length :=
      InfiniteRun.replayed_of_length_le (not_lt.mp htime)
    rw [hsame] at hbusy
    exact absurd (hend p) hbusy

theorem bakerylock_serves_all_tied : ∃ run : BakeryRun 2,
    (run.state 8).thread 1 = .leaveDoorway ∧
      ∃ later ≥ 8, (run.state later).thread 1 = .holding := by
  obtain ⟨run, hfair, hdoor⟩ := exists_tiedRun
  exact ⟨run, hdoor, bakerylock_serves_all run hfair 1 8 (by rw [hdoor]; nofun)⟩

end Cyancore.Locks
