/-
# The bakery lock excludes

Tickets are ordered with the core index as a tie-break.  What a core in the second loop
has learned about another core is that this core, if it has a ticket at all, comes later
in that order, and that if it is choosing one it has already seen ours.  Both parts
survive everything the other core can do, as long as no ticket is truncated when it is
stored; two cores that have both finished the loop would each come before the other.
-/

import Cyancore.Locks.Bakerylock
import Mathlib.Data.Prod.Lex
import Mathlib.Order.Fin.Basic

namespace Cyancore.Locks

open Cyancore.Math

variable {n : ℕ} {key key' : Bakerylock n} {p q tid : Fin n} {side : Side}
  {here here' there there' : Phase n}

/-! ## What the phases mean -/

/-- The core is choosing its ticket. -/
def Phase.InDoorway : Phase n → Prop
  | .scan _ _ | .leaveDoorway => True
  | _ => False

/-- The core has stored a ticket. -/
def Phase.Ticketed : Phase n → Prop
  | .idle | .scan _ _ => False
  | _ => True

/-- The core of this phase has finished its wait for core `q`. -/
def Phase.Passed (q : Fin n) : Phase n → Prop
  | .idle | .scan _ _ | .leaveDoorway => False
  | .awaitProtect i | .testTicket i | .compare _ i | .readOther _ i _ | .readOwn _ i _ => q < i
  | .holding => True

/-- The core of this phase is waiting for core `q`, which it has found outside the doorway. -/
def Phase.Faces (q : Fin n) : Phase n → Prop
  | .testTicket i | .compare _ i | .readOther _ i _ | .readOwn _ i _ => q = i
  | _ => False

theorem Phase.advance_cases (i : Fin n) :
    (Phase.advance i = .holding ∧ i + 1 = n) ∨
      ∃ j : Fin n, Phase.advance i = .awaitProtect j ∧ j.val = i + 1 := by
  by_cases h : i + 1 < n
  · exact .inr ⟨⟨i + 1, h⟩, dif_pos h, rfl⟩
  · exact .inl ⟨dif_neg h, by omega⟩

theorem Phase.passed_advance {i : Fin n} : (Phase.advance i).Passed q ↔ q ≤ i := by
  rcases Phase.advance_cases i with ⟨heq, hlast⟩ | ⟨j, heq, hnext⟩
  · simp only [heq, Phase.Passed, true_iff, Fin.le_def]
    omega
  · simp only [heq, Phase.Passed, Fin.lt_def, Fin.le_def]
    omega

theorem Phase.not_faces_advance {i : Fin n} : ¬ (Phase.advance i).Faces q := by
  rcases Phase.advance_cases i with ⟨heq, -⟩ | ⟨j, heq, -⟩
  · simp [heq, Phase.Faces]
  · simp [heq, Phase.Faces]

theorem Phase.ticketed_advance (i : Fin n) : (Phase.advance i).Ticketed := by
  rcases Phase.advance_cases i with ⟨heq, -⟩ | ⟨j, heq, -⟩
  · simp [heq, Phase.Ticketed]
  · simp [heq, Phase.Ticketed]

/-- The order in which tickets are served. -/
def Bakerylock.rank (key : Bakerylock n) (p : Fin n) : ℕ ×ₗ Fin n := toLex (key.threadCount p, p)

theorem Bakerylock.rank_lt_iff : key.rank p < key.rank q ↔
    key.threadCount p < key.threadCount q ∨ key.threadCount p = key.threadCount q ∧ p < q :=
  Prod.Lex.toLex_lt_toLex

/-- The order that both comparisons of the inner loop leave. -/
theorem Bakerylock.rank_lt_of_le (hne : p ≠ q) (hle : key.threadCount p ≤ key.threadCount q)
    (htest : ¬ (key.threadCount q = key.threadCount p ∧ q < p)) : key.rank p < key.rank q := by
  rw [Bakerylock.rank_lt_iff]
  by_cases heq : key.threadCount p = key.threadCount q
  · exact .inr ⟨heq, lt_of_le_of_ne (not_lt.mp fun h => htest ⟨heq.symm, h⟩) hne⟩
  · exact .inl (lt_of_le_of_ne hle heq)

/-! ## The assertions -/

/-- What holds of one core. -/
structure CoreOk (key : Bakerylock n) (p : Fin n) (here : Phase n) : Prop where
  doorway : here.InDoorway → key.protect p = true
  ticket : here.Ticketed → key.threadCount p ≠ 0
  own : ∀ test i own, here = .readOwn test i own → own = key.threadCount p

/-- If the other core is choosing a ticket and has come past `p`, it has seen the ticket of `p`;
if it has one, `order` holds. -/
structure Clears (key : Bakerylock n) (p : Fin n) (there : Phase n) (order : Prop) : Prop where
  seen : ∀ i nMax, there = .scan i nMax → p.val < i → key.threadCount p ≤ nMax
  order : there.Ticketed → order

theorem Clears.of_ticketed {order : Prop} (hticket : there.Ticketed) (horder : order) :
    Clears key p there order := by
  refine ⟨fun i nMax heq => ?_, fun _ => horder⟩
  subst heq
  exact hticket.elim

/-- How the ticket of `p` compares with that of the core it faces, as far as `p` has found
out. -/
def Phase.learned (key : Bakerylock n) (p q : Fin n) : Phase n → Prop
  | .compare .equal _ | .readOwn .equal _ _ => key.threadCount p ≤ key.threadCount q
  | .readOther .less _ other =>
      key.threadCount p ≤ other → key.threadCount p ≤ key.threadCount q
  | .readOther .equal _ other =>
      ¬ (other = key.threadCount p ∧ q < p) → key.rank p < key.rank q
  | _ => True

/-- What core `p` in phase `here` relies on about core `q` in phase `there`. -/
structure PairOk (key : Bakerylock n) (p : Fin n) (here : Phase n) (q : Fin n)
    (there : Phase n) : Prop where
  passed : here.Passed q → Clears key p there (key.rank p < key.rank q)
  facing : here.Faces q → Clears key p there (here.learned key p q)

/-- A larger ticket satisfies whatever can be learned. -/
theorem Phase.learned_of_lt (hlt : key.threadCount p < key.threadCount q) (here : Phase n) :
    here.learned key p q := by
  have hrank : key.rank p < key.rank q := Bakerylock.rank_lt_iff.mpr (.inl hlt)
  unfold Phase.learned
  split
  · exact hlt.le
  · exact hlt.le
  · exact fun _ => hlt.le
  · exact fun _ => hrank
  · trivial

/-- What can be learned is about the two tickets only. -/
theorem Phase.learned_congr (hp : key'.threadCount p = key.threadCount p)
    (hq : key'.threadCount q = key.threadCount q) (here : Phase n) :
    here.learned key' p q ↔ here.learned key p q := by
  simp only [Phase.learned, Bakerylock.rank_lt_iff, hp, hq]

/-! ## What a move does -/

/-- The moves of a core, one constructor for each outcome of its next access. -/
inductive BakeryMove (tid : Fin n) (key : Bakerylock n) : Phase n → Bakerylock n → Phase n → Prop
  | enter : BakeryMove tid key .idle (key.setProtect tid true) (.scan 0 0)
  | look (i nMax : ℕ) (h : i < n) : BakeryMove tid key (.scan i nMax) key
      (.scan (i + 1) (max nMax (key.threadCount ⟨i, h⟩)))
  | draw (i nMax : ℕ) (h : n ≤ i) : BakeryMove tid key (.scan i nMax)
      (key.setCount tid (nMax + 1)) .leaveDoorway
  | leave : BakeryMove tid key .leaveDoorway (key.setProtect tid false) (.awaitProtect ⟨0, tid.pos⟩)
  | stay (i : Fin n) : BakeryMove tid key (.awaitProtect i) key (.awaitProtect i)
  | face (i : Fin n) (h : key.protect i = false) :
      BakeryMove tid key (.awaitProtect i) key (.testTicket i)
  | skip (i : Fin n) (h : key.threadCount i = 0) :
      BakeryMove tid key (.testTicket i) key (.advance i)
  | weigh (i : Fin n) : BakeryMove tid key (.testTicket i) key (.compare .less i)
  | readOther (test : Test) (i : Fin n) : BakeryMove tid key (.compare test i) key
      (.readOther test i (key.threadCount i))
  | readOwn (test : Test) (i : Fin n) : BakeryMove tid key (.compare test i) key
      (.readOwn test i (key.threadCount tid))
  | retryOther (test : Test) (i : Fin n) (other : ℕ) :
      BakeryMove tid key (.readOther test i other) key (.testTicket i)
  | retryOwn (test : Test) (i : Fin n) (own : ℕ) :
      BakeryMove tid key (.readOwn test i own) key (.testTicket i)
  | notLessOther (i : Fin n) (other : ℕ) (h : key.threadCount tid ≤ other) :
      BakeryMove tid key (.readOther .less i other) key (.compare .equal i)
  | notLessOwn (i : Fin n) (own : ℕ) (h : own ≤ key.threadCount i) :
      BakeryMove tid key (.readOwn .less i own) key (.compare .equal i)
  | passOther (i : Fin n) (other : ℕ) (h : ¬ (other = key.threadCount tid ∧ i < tid)) :
      BakeryMove tid key (.readOther .equal i other) key (.advance i)
  | passOwn (i : Fin n) (own : ℕ) (h : ¬ (key.threadCount i = own ∧ i < tid)) :
      BakeryMove tid key (.readOwn .equal i own) key (.advance i)
  | release : BakeryMove tid key .holding (key.setCount tid 0) .idle

theorem BakeryMove.of_act (hact : bakeryAct tid side key here = some (key', here')) :
    BakeryMove tid key here key' here' := by
  cases here with
  | idle =>
      obtain ⟨rfl, rfl⟩ := Prod.mk.inj (Option.some.inj hact)
      exact .enter
  | scan i nMax =>
      rw [bakeryAct] at hact
      split at hact
      · rename_i hi
        have hmax : (if nMax < key.threadCount ⟨i, hi⟩ then key.threadCount ⟨i, hi⟩ else nMax) =
            max nMax (key.threadCount ⟨i, hi⟩) := by
          simp only [max_def]
          grind
        simp only [hmax, Option.some.injEq, Prod.mk.injEq] at hact
        obtain ⟨rfl, rfl⟩ := hact
        exact .look i nMax hi
      · rename_i hi
        obtain ⟨rfl, rfl⟩ := Prod.mk.inj (Option.some.inj hact)
        exact .draw i nMax (not_lt.mp hi)
  | leaveDoorway =>
      obtain ⟨rfl, rfl⟩ := Prod.mk.inj (Option.some.inj hact)
      exact .leave
  | awaitProtect i =>
      rw [bakeryAct] at hact
      split at hact
      · obtain ⟨rfl, rfl⟩ := Prod.mk.inj (Option.some.inj hact)
        exact .stay i
      · rename_i hprotect
        obtain ⟨rfl, rfl⟩ := Prod.mk.inj (Option.some.inj hact)
        exact .face i (Bool.not_eq_true _ ▸ hprotect)
  | testTicket i =>
      rw [bakeryAct] at hact
      split at hact
      · rename_i hzero
        obtain ⟨rfl, rfl⟩ := Prod.mk.inj (Option.some.inj hact)
        exact .skip i hzero
      · obtain ⟨rfl, rfl⟩ := Prod.mk.inj (Option.some.inj hact)
        exact .weigh i
  | compare test i =>
      cases side with
      | other =>
          obtain ⟨rfl, rfl⟩ := Prod.mk.inj (Option.some.inj hact)
          exact .readOther test i
      | own =>
          obtain ⟨rfl, rfl⟩ := Prod.mk.inj (Option.some.inj hact)
          exact .readOwn test i
  | readOther test i other =>
      obtain ⟨rfl, rfl⟩ := Prod.mk.inj (Option.some.inj hact)
      cases test with
      | less =>
          by_cases hless : other < key.threadCount tid
          · simpa [Phase.decideTest, hless] using BakeryMove.retryOther .less i other
          · simpa [Phase.decideTest, hless] using .notLessOther i other (not_lt.mp hless)
      | equal =>
          by_cases hequal : other = key.threadCount tid ∧ i < tid
          · rw [Phase.decideTest, if_pos hequal]
            exact .retryOther .equal i other
          · rw [Phase.decideTest, if_neg hequal]
            exact .passOther i other hequal
  | readOwn test i own =>
      obtain ⟨rfl, rfl⟩ := Prod.mk.inj (Option.some.inj hact)
      cases test with
      | less =>
          by_cases hless : key.threadCount i < own
          · simpa [Phase.decideTest, hless] using BakeryMove.retryOwn .less i own
          · simpa [Phase.decideTest, hless] using .notLessOwn i own (not_lt.mp hless)
      | equal =>
          by_cases hequal : key.threadCount i = own ∧ i < tid
          · rw [Phase.decideTest, if_pos hequal]
            exact .retryOwn .equal i own
          · rw [Phase.decideTest, if_neg hequal]
            exact .passOwn i own hequal
  | holding =>
      obtain ⟨rfl, rfl⟩ := Prod.mk.inj (Option.some.inj hact)
      exact .release

/-- The fields of the other cores are as before. -/
theorem BakeryMove.frame (hmove : BakeryMove tid key here key' here') (hne : p ≠ tid) :
    key'.threadCount p = key.threadCount p ∧ key'.protect p = key.protect p := by
  cases hmove with
  | enter | leave => exact ⟨rfl, Function.update_of_ne hne _ _⟩
  | draw i nMax h => exact ⟨Function.update_of_ne hne _ _, rfl⟩
  | release => exact ⟨Function.update_of_ne hne _ _, rfl⟩
  | _ => exact ⟨rfl, rfl⟩

/-! ## The assertions do not interfere -/

/-- The stored ticket is not truncated. -/
theorem threadCount_setCount_of_fits {value : ℕ} (hfits : value ≤ 255) :
    (key.setCount tid value).threadCount tid = value := by
  simp only [Bakerylock.setCount, Function.update_self, toUint8]
  omega

theorem CoreOk.advance (hticket : key.threadCount p ≠ 0) (i : Fin n) :
    CoreOk key p (Phase.advance i) := by
  rcases Phase.advance_cases i with ⟨heq, -⟩ | ⟨j, heq, -⟩
  · rw [heq]
    exact ⟨nofun, fun _ => hticket, nofun⟩
  · rw [heq]
    exact ⟨nofun, fun _ => hticket, nofun⟩

theorem CoreOk.self (hok : CoreOk key tid here) (hfits : TicketFits tid side key here)
    (hmove : BakeryMove tid key here key' here') : CoreOk key' tid here' := by
  cases hmove with
  | enter => exact ⟨fun _ => Function.update_self .., nofun, nofun⟩
  | look i nMax h => exact ⟨fun _ => hok.doorway trivial, nofun, nofun⟩
  | draw i nMax h =>
      refine ⟨fun _ => hok.doorway trivial, fun _ => ?_, nofun⟩
      rw [threadCount_setCount_of_fits (hfits h)]
      exact Nat.succ_ne_zero nMax
  | skip i h => exact .advance (hok.ticket trivial) i
  | passOther i other h => exact .advance (hok.ticket trivial) i
  | passOwn i own h => exact .advance (hok.ticket trivial) i
  | readOwn test i => exact ⟨nofun, fun _ => hok.ticket trivial, fun _ _ _ h => by cases h; rfl⟩
  | release => exact ⟨nofun, nofun, nofun⟩
  | _ => exact ⟨nofun, fun _ => hok.ticket trivial, nofun⟩

/-- What is known about a core outlives its moves: a ticket it draws is larger than those it
has seen. -/
theorem Clears.move {order order' : Prop} (hclears : Clears key p there order) (hne : p ≠ tid)
    (hfits : TicketFits tid side key there) (hmove : BakeryMove tid key there key' there')
    (hkeep : key'.threadCount = key.threadCount → order → order')
    (hlater : key'.threadCount p < key'.threadCount tid → order') :
    Clears key' p there' order' := by
  cases hmove with
  | enter => exact ⟨fun i nMax h hlt => by cases h; omega, nofun⟩
  | look i nMax h =>
      refine ⟨fun i' nMax' heq hlt => ?_, nofun⟩
      cases heq
      rcases Nat.lt_succ_iff_lt_or_eq.mp hlt with hlt | heq
      · exact (hclears.seen i nMax rfl hlt).trans (le_max_left _ _)
      · have hsame : key.threadCount p = key.threadCount ⟨i, h⟩ :=
          congrArg key.threadCount (Fin.ext heq)
        exact hsame.le.trans (le_max_right _ _)
  | draw i nMax h =>
      refine ⟨nofun, fun _ => hlater ?_⟩
      rw [threadCount_setCount_of_fits (hfits h)]
      have hseen := hclears.seen i nMax rfl (p.isLt.trans_le h)
      have hsame : (key.setCount tid (nMax + 1)).threadCount p = key.threadCount p :=
        Function.update_of_ne hne _ _
      omega
  | release => exact ⟨nofun, nofun⟩
  | skip i h =>
      exact .of_ticketed (Phase.ticketed_advance i) (hkeep rfl (hclears.order trivial))
  | passOther i other h =>
      exact .of_ticketed (Phase.ticketed_advance i) (hkeep rfl (hclears.order trivial))
  | passOwn i own h =>
      exact .of_ticketed (Phase.ticketed_advance i) (hkeep rfl (hclears.order trivial))
  | _ => exact .of_ticketed trivial (hkeep rfl (hclears.order trivial))

theorem PairOk.right (hok : PairOk key p here tid there) (hne : p ≠ tid)
    (hfits : TicketFits tid side key there) (hmove : BakeryMove tid key there key' there') :
    PairOk key' p here tid there' where
  passed := by
    intro hpassed
    apply (hok.passed hpassed).move hne hfits hmove
    · intro hsame horder
      simpa only [Bakerylock.rank_lt_iff, hsame] using horder
    · intro hlt
      exact Bakerylock.rank_lt_iff.mpr (.inl hlt)
  facing := by
    intro hfaces
    apply (hok.facing hfaces).move hne hfits hmove
    · intro hsame hlearned
      exact (Phase.learned_congr (by rw [hsame]) (by rw [hsame]) here).mpr hlearned
    · intro hlt
      exact Phase.learned_of_lt hlt here

theorem PairOk.other (hok : PairOk key p here q there)
    (hp : key'.threadCount p = key.threadCount p) (hq : key'.threadCount q = key.threadCount q) :
    PairOk key' p here q there where
  passed := by
    intro hpassed
    obtain ⟨hseen, horder⟩ := hok.passed hpassed
    rw [Bakerylock.rank_lt_iff] at horder
    exact ⟨hp ▸ hseen, by rwa [Bakerylock.rank_lt_iff, hp, hq]⟩
  facing := by
    intro hfaces
    obtain ⟨hseen, horder⟩ := hok.facing hfaces
    exact ⟨hp ▸ hseen, fun h => (Phase.learned_congr hp hq here).mpr (horder h)⟩

/-- A core that stays with the core it faces keeps what it knows about those before. -/
theorem PairOk.learn (hok : PairOk key p here q there)
    (hpassed : here'.Passed q → here.Passed q) (hfaces : here'.Faces q → here.Faces q)
    (hlearned : here.Faces q → there.Ticketed → here.learned key p q → here'.learned key p q) :
    PairOk key p here' q there where
  passed := fun h => hok.passed (hpassed h)
  facing := fun h =>
    ⟨(hok.facing (hfaces h)).seen, fun hticket =>
      hlearned (hfaces h) hticket ((hok.facing (hfaces h)).order hticket)⟩

/-- A core that moves on has to know that it comes before the core it faced. -/
theorem PairOk.advance {i : Fin n} (hok : PairOk key p here q there)
    (hpassed : q < i → here.Passed q) (hfaces : q = i → here.Faces q)
    (horder : q = i → there.Ticketed → here.learned key p q → key.rank p < key.rank q) :
    PairOk key p (.advance i) q there where
  passed := by
    intro h
    rw [Phase.passed_advance] at h
    rcases lt_or_eq_of_le h with hlt | heq
    · exact hok.passed (hpassed hlt)
    · have hknown := hok.facing (hfaces heq)
      exact ⟨hknown.seen, fun hticket => horder heq hticket (hknown.order hticket)⟩
  facing := fun h => absurd h Phase.not_faces_advance

theorem PairOk.left (hok : PairOk key tid here q there) (hne : tid ≠ q)
    (hown : CoreOk key tid here) (hother : CoreOk key q there)
    (hmove : BakeryMove tid key here key' here') : PairOk key' tid here' q there := by
  cases hmove with
  | enter | look | draw | release => exact ⟨nofun, nofun⟩
  | leave => exact ⟨fun h => absurd h (Nat.not_lt_zero _), nofun⟩
  | stay i => exact hok
  | face i h =>
      refine ⟨fun hpassed => hok.passed hpassed, fun hfaces => ⟨?_, fun _ => trivial⟩⟩
      -- the core was seen outside the doorway
      rintro j nMax rfl -
      have hprotect := hother.doorway trivial
      rw [hfaces, h] at hprotect
      cases hprotect
  | skip i h =>
      refine hok.advance id id ?_
      rintro rfl hticket -
      exact absurd h (hother.ticket hticket)
  | weigh i => exact hok.learn id id fun _ _ h => h
  | readOther test i =>
      refine hok.learn id id ?_
      rintro rfl - hlearned
      cases test with
      | less => exact fun h => h
      | equal => exact fun h => Bakerylock.rank_lt_of_le hne hlearned h
  | readOwn test i =>
      refine hok.learn id id ?_
      rintro rfl - hlearned
      cases test with
      | less => trivial
      | equal => exact hlearned
  | retryOther test i other => exact hok.learn id id fun _ _ _ => trivial
  | retryOwn test i own => exact hok.learn id id fun _ _ _ => trivial
  | notLessOther i other h => exact hok.learn id id fun _ _ hlearned => hlearned h
  | notLessOwn i own h =>
      refine hok.learn id id ?_
      rintro rfl - -
      rwa [hown.own .less q own rfl] at h
  | passOther i other h =>
      refine hok.advance id id ?_
      rintro rfl - hlearned
      exact hlearned h
  | passOwn i own h =>
      refine hok.advance id id ?_
      rintro rfl - hlearned
      rw [hown.own .equal q own rfl] at h
      exact Bakerylock.rank_lt_of_le hne hlearned h

/-- The assertions about one core and about two survive every move. -/
theorem bakery_nonInterfering :
    Pool.NonInterfering (bakeryAct (n := n)) TicketFits CoreOk PairOk where
  own_self := by
    intro t c key here key' here' hown hfits hact
    exact hown.self hfits (.of_act hact)
  own_other := by
    intro t c key here key' here' p l _ _ hact hne hown _
    obtain ⟨hcount, hprotect⟩ := (BakeryMove.of_act hact).frame hne
    exact ⟨hprotect ▸ hown.doorway, hcount ▸ hown.ticket, hcount ▸ hown.own⟩
  pair_left := by
    intro t c key here key' here' q k hown _ hact hne hother hpair
    exact hpair.left hne.symm hown hother (.of_act hact)
  pair_right := by
    intro t c key here key' here' p l _ hfits hact hne _ hpair
    exact hpair.right hne hfits (.of_act hact)
  pair_other := by
    intro t c key here key' here' p l q k _ _ hact hp hq hpair
    have hmove := BakeryMove.of_act hact
    exact hpair.other (hmove.frame hp).1 (hmove.frame hq).1

theorem asserts_of_bakery {pool : BakeryPool n}
    (hreach : (bakerySystem n).Reachable (Pool.localGuard TicketFits) pool) :
    Pool.Asserts CoreOk PairOk pool := by
  apply Pool.asserts_of_reachable bakery_nonInterfering _ _ hreach
  · rintro key rfl t
    exact ⟨nofun, nofun, nofun⟩
  · rintro key rfl p q -
    exact ⟨nofun, nofun⟩

/-- In every run in which no core stores a ticket beyond 255, at most one core is between the
return of `bakerylock_acquire` and the reset of its ticket. -/
theorem bakerylock_excludes {pool : BakeryPool n}
    (hreach : (bakerySystem n).Reachable (Pool.localGuard TicketFits) pool) {p q : Fin n}
    (hp : pool.thread p = .holding) (hq : pool.thread q = .holding) : p = q := by
  by_contra hne
  have hasserts := asserts_of_bakery hreach
  have hpair := hasserts.pair p q hne
  have hpair' := hasserts.pair q p (Ne.symm hne)
  rw [hp, hq] at hpair hpair'
  have hbefore := (hpair.passed trivial).order trivial
  have hafter := (hpair'.passed trivial).order trivial
  exact lt_asymm hbefore hafter

instance (tid : Fin n) (side : Side) (key : Bakerylock n) (here : Phase n) :
    Decidable (TicketFits tid side key here) :=
  match here with
  | .scan i nMax => inferInstanceAs (Decidable (n ≤ i → nMax + 1 ≤ 255))
  | .idle | .leaveDoorway | .awaitProtect _ | .testTicket _ | .compare _ _ | .readOther _ _ _
  | .readOwn _ _ _ | .holding => isTrue trivial

/-- No core uses the lock. -/
def bakeryIdle (n : ℕ) : BakeryPool n := ⟨.zero n, fun _ => .idle⟩

/-- Both of two cores scan before either stores its ticket, and so both draw the ticket 1; core
`q` then runs until it waits for core `p`, which goes on until it holds the lock. -/
def tiedRun (p q : Fin 2) : List (Fin 2 × Side) :=
  [p, q, p, q, p, q, p, q, p, q, q, q, q, q, q, q, p, p, p, p, p, p, p, p, p, p, p, p].map
    fun core => (core, .other)

theorem bakerylock_excludes_tied : ∃ pool : BakeryPool 2,
    (bakerySystem 2).Reachable (Pool.localGuard TicketFits) pool ∧ pool.thread 0 = .holding ∧
      pool.shared.threadCount 1 = 1 ∧ ∀ q, pool.thread q = .holding → 0 = q := by
  have hstart : (bakerySystem 2).Reachable (Pool.localGuard TicketFits) (bakeryIdle 2) :=
    .start ⟨rfl, fun _ => rfl⟩
  have htest : (TransitionSystem.replay (Pool.step bakeryAct) (Pool.localGuard TicketFits)
      (tiedRun 0 1) (bakeryIdle 2)).any
        (fun pool => pool.thread 0 = .holding ∧ pool.shared.threadCount 1 = 1) = true := by
    decide
  obtain ⟨pool, hreach, hpool⟩ := hstart.exists_replay htest
  obtain ⟨hholds, hticket⟩ := of_decide_eq_true hpool
  exact ⟨pool, hreach, hholds, hticket, fun q hq => bakerylock_excludes hreach hholds hq⟩

end Cyancore.Locks
