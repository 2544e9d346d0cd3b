/-
# One tick of the wait list

Seen over the whole list, `__helios_sched_wait_list_adjustment` is a sweep that stops with the
first task it wakes, because the task has lost its links by the time they are read, and that
never comes past a paused one.  It judges every task by the resource of the task that headed
the list.  So a tick is what it should be when it wakes nobody and nobody is paused, or when
the task it wakes has only paused ones behind it.
-/

import Cyancore.Helios.ReadyList
import Cyancore.Helios.Sweep

namespace Cyancore.Helios

open Cyancore.Math

variable {cfg : HeliosConfig} {state state' : SchedState} {waitRes : ℕ} {task first other : Addr}
  {queue front tasks before after : List Addr}

/-! ## One task -/

theorem HeliosConfig.sizePred_ne (cfg : HeliosConfig) (ticks : ℕ) : cfg.sizePred ticks ≠ ticks := by
  have hmod : 2 ^ 1 ≤ cfg.sizeMod :=
    Nat.pow_le_pow_right (by decide) (by have hbits := cfg.sixteen_le_sizeBits; omega)
  intro hsame
  have hlt : ticks < cfg.sizeMod := by
    rw [← hsame]
    exact Nat.mod_lt _ (by omega)
  rw [HeliosConfig.sizePred, HeliosConfig.delayMax] at hsame
  cases ticks with
  | zero =>
      rw [Nat.mod_eq_of_lt (by omega)] at hsame
      omega
  | succ ticks =>
      rw [show ticks + 1 + (cfg.sizeMod - 1) = ticks + cfg.sizeMod by omega, Nat.add_mod_right,
        Nat.mod_eq_of_lt (by omega)] at hsame
      omega

/-- Resuming a task of the list takes it off, unlinked, with no ticks left. -/
theorem exists_resumed (hlist : state.ListIs .wait queue) (hmem : task ∈ queue)
    (hblocked : (state.status task).Blocked) :
    ∃ woken, heliosSchedSendToResume (some task) state = .done woken ∧
      woken.ListIs .wait (queue.erase task) ∧ woken.next .wait task = none ∧
      woken.status = Function.update state.status task .ready ∧
      woken.delay = Function.update state.delay task 0 ∧ woken.awaited = state.awaited := by
  obtain ⟨links, hring, hgone, hrun⟩ := heliosSchedSendToResume_of_mem hlist hmem hblocked
  exact ⟨_, hrun, listIs_wait_putList hring 0 .ready, by simpa using hgone, by simp, by simp,
    by simp⟩

/-! ## The sweep over a ring -/

theorem SchedState.ListIs.tickWaiting (hlist : state.ListIs .wait queue) :
    (tickWaiting cfg waitRes task state).ListIs .wait queue :=
  ⟨by simpa using hlist.ring, waitListHead_tickWaiting.trans hlist.head⟩

theorem SchedState.ListIs.tickAll (hlist : state.ListIs .wait queue) :
    (tickAll cfg waitRes tasks state).ListIs .wait queue :=
  ⟨by simpa using hlist.ring, waitListHead_tickAll.trans hlist.head⟩

/-- The task behind a member, and whether it is the head again. -/
theorem next_of_listIs (hlist : state.ListIs .wait (front ++ first :: tasks)) :
    ∃ succ, state.next .wait first = some succ ∧
      (some succ = state.waitListHead ↔ tasks = []) ∧ ∀ task ∈ tasks.head?, succ = task := by
  have hhead : state.waitListHead = (front ++ first :: tasks).head? := hlist.head
  have hnodup := hlist.ring.nodup
  cases tasks with
  | nil =>
      obtain ⟨head, hsome⟩ : ∃ head, (front ++ [first]).head? = some head :=
        Option.ne_none_iff_exists'.mp (by simp)
      have hjoined := hlist.ring.joined_last hsome
      exact ⟨head, hjoined.1, by simp [hhead, hsome], by simp⟩
  | cons succ tasks =>
      have hjoined := Links.Ring.joined_of_split front tasks hlist.ring
      refine ⟨succ, hjoined.1, iff_of_false ?_ (List.cons_ne_nil _ _), by simp⟩
      rw [hhead]
      intro hfirst
      cases front with
      | nil =>
          obtain rfl := Option.some.inj hfirst
          simp at hnodup
      | cons head front =>
          obtain rfl := Option.some.inj hfirst
          simp at hnodup

/-- A task with ticks left loses one, and the sweep goes on unless it was the last. -/
theorem sweepTurn_of_left (hlist : state.ListIs .wait (front ++ first :: tasks))
    (hstatus : state.status first = .wait) (hleft : ¬ Due cfg waitRes state first) :
    sweepTurn cfg waitRes (some first, state) =
      .done (if tasks = [] then .exit (tickWaiting cfg waitRes first state)
        else .next (tasks.head?, tickWaiting cfg waitRes first state)) := by
  have hticks : ((tickWaiting cfg waitRes first state).tcb first).waitRes.taskDelayTicks ≠ 0 :=
    mt delay_tickWaiting_eq_zero_iff.mp hleft
  have hticked := @SchedState.ListIs.tickWaiting cfg state waitRes first _ hlist
  obtain ⟨succ, hnext, hround, hsucc⟩ := next_of_listIs hticked
  simp only [sweepTurn, if_pos hstatus, wakeIfDue, if_neg hticks, Outcome.pure_eq,
    Outcome.done_bind, hnext, hround]
  cases tasks with
  | nil => simp
  | cons task tasks => simp [hsucc task rfl]

/-- The sweep ends with the first due task it meets. -/
theorem returns_sweep_of_mem (hlist : state.ListIs .wait queue) (hmem : first ∈ queue)
    (hstatus : state.status first = .wait) (hdue : Due cfg waitRes state first) :
    Returns (fun fuel => loop (sweepTurn cfg waitRes) fuel (some first, state)) state' ↔
      heliosSchedSendToResume (some first) (tickWaiting cfg waitRes first state) =
        .done state' := by
  have hticks : ((tickWaiting cfg waitRes first state).tcb first).waitRes.taskDelayTicks = 0 :=
    delay_tickWaiting_eq_zero_iff.mpr hdue
  have hblocked : ((tickWaiting cfg waitRes first state).status first).Blocked := by
    rw [status_tickWaiting, hstatus]
    exact .inl rfl
  obtain ⟨woken, hrun, -, hgone, -⟩ := exists_resumed hlist.tickWaiting hmem hblocked
  have hturn : sweepTurn cfg waitRes (some first, state) =
      .done (if none = woken.waitListHead then .exit woken else .next (none, woken)) := by
    simp only [sweepTurn, if_pos hstatus, wakeIfDue, if_pos hticks, hrun, Outcome.done_bind, hgone]
    split <;> rfl
  rw [hrun, Outcome.done.injEq]
  by_cases hempty : none = woken.waitListHead
  · rw [if_pos hempty] at hturn
    exact returns_loop_of_exit hturn
  · rw [if_neg hempty] at hturn
    have hlast : sweepTurn cfg waitRes (none, woken) = .done (.exit woken) := rfl
    rw [returns_loop_of_next hturn, returns_loop_of_exit hlast]

/-- What a sweep of the listed tasks comes to: all of them wait and count down, or the first
one that is due is resumed. -/
def SweptTo (cfg : HeliosConfig) (waitRes : ℕ) (tasks : List Addr) (state state' : SchedState) :
    Prop :=
  ((∀ task ∈ tasks, state.status task = .wait ∧ ¬ Due cfg waitRes state task) ∧
      tickAll cfg waitRes tasks state = state') ∨
    ∃ before task, FirstDue cfg waitRes state tasks before task ∧
      heliosSchedSendToResume (some task)
        (tickWaiting cfg waitRes task (tickAll cfg waitRes before state)) = .done state'

theorem sweptTo_nil_iff : SweptTo cfg waitRes [] state state' ↔ state = state' := by
  have hnone : ¬ ∃ before task, FirstDue cfg waitRes state [] before task ∧
      heliosSchedSendToResume (some task)
        (tickWaiting cfg waitRes task (tickAll cfg waitRes before state)) = .done state' := by
    rintro ⟨before, task, ⟨⟨after, hsplit⟩, -⟩, -⟩
    simp at hsplit
  rw [SweptTo, or_iff_left hnone]
  simp [tickAll]

theorem not_sweptTo_of_not_wait (hstatus : state.status first ≠ .wait) :
    ¬ SweptTo cfg waitRes (first :: tasks) state state' := by
  rintro (⟨hall, -⟩ | ⟨before, task, hfirst, -⟩)
  · exact hstatus (hall first List.mem_cons_self).1
  · rcases firstDue_cons_iff.mp hfirst with ⟨-, -, hwait, -⟩ | ⟨before', -, hwait, -⟩
    · exact hstatus hwait
    · exact hstatus hwait

theorem sweptTo_cons_of_due (hstatus : state.status first = .wait)
    (hdue : Due cfg waitRes state first) :
    SweptTo cfg waitRes (first :: tasks) state state' ↔
      heliosSchedSendToResume (some first) (tickWaiting cfg waitRes first state) =
        .done state' := by
  constructor
  · rintro (⟨hall, -⟩ | ⟨before, task, hfirst, hrun⟩)
    · exact absurd hdue (hall first List.mem_cons_self).2
    · rcases firstDue_cons_iff.mp hfirst with ⟨rfl, rfl, -⟩ | ⟨before', -, -, hleft, -⟩
      · exact hrun
      · exact absurd hdue hleft
  · intro hrun
    exact .inr ⟨[], first, firstDue_cons_iff.mpr (.inl ⟨rfl, rfl, hstatus, hdue⟩), hrun⟩

theorem sweptTo_cons_of_left (hstatus : state.status first = .wait)
    (hleft : ¬ Due cfg waitRes state first) (hfresh : first ∉ tasks) :
    SweptTo cfg waitRes (first :: tasks) state state' ↔
      SweptTo cfg waitRes tasks (tickWaiting cfg waitRes first state) state' := by
  have hsame : ∀ task ∈ tasks, (state.status task = .wait ∧ ¬ Due cfg waitRes state task ↔
      (tickWaiting cfg waitRes first state).status task = .wait ∧
        ¬ Due cfg waitRes (tickWaiting cfg waitRes first state) task) := by
    intro task htask
    have hne : task ≠ first := fun h => hfresh (h ▸ htask)
    rw [status_tickWaiting, due_tickWaiting_iff hne hleft]
  rw [SweptTo, SweptTo]
  apply or_congr
  · rw [List.forall_mem_cons, and_iff_right (And.intro hstatus hleft)]
    exact and_congr (forall₂_congr hsame) Iff.rfl
  · constructor
    · rintro ⟨before, task, hfirst, hrun⟩
      rcases firstDue_cons_iff.mp hfirst with ⟨-, -, -, hdue⟩ | ⟨before', rfl, -, -, hrest⟩
      · exact absurd hdue hleft
      · exact ⟨before', task, (firstDue_tickWaiting_iff hfresh hleft).mpr hrest, hrun⟩
    · rintro ⟨before, task, hfirst, hrun⟩
      have hrest := (firstDue_tickWaiting_iff hfresh hleft).mp hfirst
      exact ⟨first :: before, task,
        firstDue_cons_iff.mpr (.inr ⟨before, rfl, hstatus, hleft, hrest⟩), hrun⟩

/-- From any member of the list on, the sweep returns what it should come to. -/
theorem returns_sweepRing_iff (hlist : state.ListIs .wait (front ++ first :: tasks)) :
    Returns (fun fuel => loop (sweepTurn cfg waitRes) fuel (some first, state)) state' ↔
      SweptTo cfg waitRes (first :: tasks) state state' := by
  induction tasks generalizing front first state with
  | nil =>
      by_cases hstatus : state.status first = .wait
      swap
      · exact iff_of_false (not_returns_sweep_of_not_wait hstatus)
          (not_sweptTo_of_not_wait hstatus)
      by_cases hdue : Due cfg waitRes state first
      · rw [returns_sweep_of_mem hlist (by simp) hstatus hdue, sweptTo_cons_of_due hstatus hdue]
      · have hturn := sweepTurn_of_left hlist hstatus hdue
        rw [if_pos rfl] at hturn
        rw [returns_loop_of_exit hturn, sweptTo_cons_of_left hstatus hdue List.not_mem_nil,
          sweptTo_nil_iff]
  | cons second tasks ih =>
      by_cases hstatus : state.status first = .wait
      swap
      · exact iff_of_false (not_returns_sweep_of_not_wait hstatus)
          (not_sweptTo_of_not_wait hstatus)
      by_cases hdue : Due cfg waitRes state first
      · rw [returns_sweep_of_mem hlist (by simp) hstatus hdue, sweptTo_cons_of_due hstatus hdue]
      · have hturn := sweepTurn_of_left hlist hstatus hdue
        rw [if_neg (List.cons_ne_nil _ _)] at hturn
        have hfresh : first ∉ second :: tasks := by
          have hnodup := hlist.ring.nodup.of_append_right
          exact (List.nodup_cons.mp hnodup).1
        have hrest : (tickWaiting cfg waitRes first state).ListIs .wait
            (front ++ [first] ++ second :: tasks) := by
          rw [List.append_assoc]
          exact hlist.tickWaiting
        rw [returns_loop_of_next hturn, List.head?_cons, ih hrest,
          sweptTo_cons_of_left hstatus hdue hfresh]

/-! ## What is left of the ticks -/

theorem not_due_tickWaiting (hfresh : first ∉ tasks)
    (hleft : ∀ task ∈ first :: tasks, ¬ Due cfg waitRes state task) :
    ∀ task ∈ tasks, ¬ Due cfg waitRes (tickWaiting cfg waitRes first state) task := by
  intro task htask
  have hne : task ≠ first := fun h => hfresh (h ▸ htask)
  rw [due_tickWaiting_iff hne (hleft first List.mem_cons_self)]
  exact hleft task (List.mem_cons_of_mem first htask)

theorem awaited_tickAll (hnodup : tasks.Nodup)
    (hleft : ∀ task ∈ tasks, ¬ Due cfg waitRes state task) :
    (tickAll cfg waitRes tasks state).awaited = state.awaited := by
  induction tasks generalizing state with
  | nil => rfl
  | cons first tasks ih =>
      obtain ⟨hfresh, hnodup'⟩ := List.nodup_cons.mp hnodup
      refine (ih hnodup' (not_due_tickWaiting hfresh hleft)).trans ?_
      rw [tickWaiting_of_not_due (hleft first List.mem_cons_self), SchedState.awaited_setDelay]

/-- Tasks that are not due lose one tick each, and the others none. -/
theorem delay_tickAll (hnodup : tasks.Nodup)
    (hleft : ∀ task ∈ tasks, ¬ Due cfg waitRes state task) (task : Addr) :
    (tickAll cfg waitRes tasks state).delay task =
      if task ∈ tasks then cfg.sizePred (state.delay task) else state.delay task := by
  induction tasks generalizing state with
  | nil => rfl
  | cons first tasks ih =>
      obtain ⟨hfresh, hnodup'⟩ := List.nodup_cons.mp hnodup
      refine (ih hnodup' (not_due_tickWaiting hfresh hleft)).trans ?_
      rw [tickWaiting_of_not_due (hleft first List.mem_cons_self), SchedState.delay_setDelay,
        Function.update_apply]
      by_cases htask : task = first
      · subst htask
        rw [if_neg hfresh, if_pos rfl, if_pos List.mem_cons_self]
      · rw [if_neg htask]
        simp [htask]

theorem delay_tickWaiting_of_ne (hne : other ≠ task) :
    (tickWaiting cfg waitRes task state).delay other = state.delay other := by
  rw [tickWaiting]
  split
  · simp [hne]
  · simp [hne]

theorem awaited_tickWaiting_of_ne (hne : other ≠ task) :
    (tickWaiting cfg waitRes task state).awaited other = state.awaited other := by
  rw [tickWaiting]
  split
  · simp [hne]
  · simp

/-- What is left once the first due task has been resumed. -/
theorem exists_woken (hlist : state.ListIs .wait queue)
    (hfirst : FirstDue cfg waitRes state queue before task) :
    ∃ woken, heliosSchedSendToResume (some task)
        (tickWaiting cfg waitRes task (tickAll cfg waitRes before state)) = .done woken ∧
      woken.ListIs .wait (queue.erase task) ∧
      woken.status = Function.update state.status task .ready ∧ woken.delay task = 0 ∧
      ∀ other, other ≠ task → woken.awaited other = state.awaited other ∧
        woken.delay other =
          if other ∈ before then cfg.sizePred (state.delay other) else state.delay other := by
  obtain ⟨after, rfl⟩ := hfirst.split
  have hleft : ∀ other ∈ before, ¬ Due cfg waitRes state other :=
    fun other hother => (hfirst.before other hother).2
  have hnodup : before.Nodup := hlist.ring.nodup.of_append_left
  have hticked : (tickWaiting cfg waitRes task (tickAll cfg waitRes before state)).ListIs .wait
      (before ++ task :: after) := hlist.tickAll.tickWaiting
  have hblocked : ((tickWaiting cfg waitRes task (tickAll cfg waitRes before state)).status
      task).Blocked := by
    rw [status_tickWaiting, status_tickAll, hfirst.status]
    exact .inl rfl
  obtain ⟨woken, hrun, hlist', -, hstatus, hdelay, hawaited⟩ :=
    exists_resumed hticked (by simp) hblocked
  rw [status_tickWaiting, status_tickAll] at hstatus
  refine ⟨woken, hrun, hlist', hstatus, ?_, fun other hne => ⟨?_, ?_⟩⟩
  · rw [hdelay, Function.update_self]
  · rw [hawaited, awaited_tickWaiting_of_ne hne, awaited_tickAll hnodup hleft]
  · rw [hdelay, Function.update_of_ne hne, delay_tickWaiting_of_ne hne,
      delay_tickAll hnodup hleft]

/-! ## When a tick is what it should be -/

/-- The countdown of the task ends at its next tick, or the resource it waits for is there. -/
def OwnDue (cfg : HeliosConfig) (state : SchedState) (task : Addr) : Prop :=
  Due cfg (state.awaited task) state task

instance (cfg : HeliosConfig) (state : SchedState) : DecidablePred (OwnDue cfg state) :=
  fun _ => inferInstanceAs (Decidable (Due _ _ _ _))

/-- The task waits and is due. -/
def Expires (cfg : HeliosConfig) (state : SchedState) (task : Addr) : Prop :=
  state.status task = .wait ∧ OwnDue cfg state task

instance (cfg : HeliosConfig) (state : SchedState) : DecidablePred (Expires cfg state) :=
  fun _ => inferInstanceAs (Decidable (_ ∧ _))

/-- Every task of the list that waits has counted down, those that are due are ready and off
the list, and the paused ones are as they were. -/
structure Ticked (cfg : HeliosConfig) (queue : List Addr) (state state' : SchedState) : Prop where
  waiting : ∀ task ∈ queue, state.status task = .wait → ¬ OwnDue cfg state task →
    state'.status task = .wait ∧ state'.delay task = cfg.sizePred (state.delay task)
  due : ∀ task ∈ queue, Expires cfg state task →
    state'.status task = .ready ∧ state'.delay task = 0
  paused : ∀ task ∈ queue, state.status task = .pause →
    state'.status task = .pause ∧ state'.delay task = state.delay task ∧
      state'.awaited task = state.awaited task
  list : state'.ListIs .wait (queue.filter fun task => ¬ Expires cfg state task)

/-- One call ticks the list. -/
def TicksList (cfg : HeliosConfig) (queue : List Addr) (state : SchedState) : Prop :=
  ∃ state', Returns (fun fuel => heliosSchedWaitListAdjustment cfg fuel state) state' ∧
    Ticked cfg queue state state'

/-- All tasks wait and none is due; or one is, ahead of it are only such tasks, behind it only
paused ones, and it heads the list or has spent its ticks. -/
def DueLast (cfg : HeliosConfig) (queue : List Addr) (state : SchedState) : Prop :=
  (∀ task ∈ queue, state.status task = .wait ∧ ¬ OwnDue cfg state task) ∨
    ∃ before task after, queue = before ++ task :: after ∧
      (∀ other ∈ before, state.status other = .wait ∧ ¬ OwnDue cfg state other) ∧
      Expires cfg state task ∧ (before = [] ∨ cfg.sizePred (state.delay task) = 0) ∧
      ∀ other ∈ after, state.status other = .pause

/-- With a head that is not due, the others are judged by their ticks alone. -/
theorem due_iff_of_head (hleft : ¬ OwnDue cfg state first) :
    Due cfg (state.awaited first) state task ↔ cfg.sizePred (state.delay task) = 0 :=
  or_iff_left fun hthere => hleft (.inr hthere)

/-- A list of waiting tasks that are not due is ticked. -/
theorem ticked_tickAll (hlist : state.ListIs .wait queue)
    (hall : ∀ task ∈ queue, state.status task = .wait ∧ ¬ OwnDue cfg state task)
    (hleft : ∀ task ∈ queue, ¬ Due cfg waitRes state task) :
    Ticked cfg queue state (tickAll cfg waitRes queue state) where
  waiting task htask hstatus _ := by
    rw [status_tickAll, delay_tickAll hlist.ring.nodup hleft, if_pos htask]
    exact ⟨hstatus, rfl⟩
  due task htask hexpires := absurd hexpires.2 (hall task htask).2
  paused task htask hstatus := by
    rw [(hall task htask).1] at hstatus
    cases hstatus
  list := by
    have hfilter : queue.filter (fun task => ¬ Expires cfg state task) = queue := by
      apply List.filter_eq_self.mpr
      intro task htask
      simpa using fun hexpires : Expires cfg state task => (hall task htask).2 hexpires.2
    rw [hfilter]
    exact hlist.tickAll

/-- A list whose due task has only paused ones behind it is ticked. -/
theorem exists_ticked_woken (hlist : state.ListIs .wait (before ++ task :: after))
    (hfirst : FirstDue cfg waitRes state (before ++ task :: after) before task)
    (hbefore : ∀ other ∈ before, state.status other = .wait ∧ ¬ OwnDue cfg state other)
    (hexpires : Expires cfg state task) (hafter : ∀ other ∈ after, state.status other = .pause) :
    ∃ state', heliosSchedSendToResume (some task)
        (tickWaiting cfg waitRes task (tickAll cfg waitRes before state)) = .done state' ∧
      Ticked cfg (before ++ task :: after) state state' := by
  obtain ⟨woken, hrun, hlist', hstatus, hspent, hothers⟩ := exists_woken hlist hfirst
  have hnodup := hlist.ring.nodup
  have hfresh : task ∉ before := fun h =>
    List.disjoint_of_nodup_append hnodup h List.mem_cons_self
  have hfresh' : task ∉ after := (List.nodup_cons.mp hnodup.of_append_right).1
  have hpaused : ∀ other ∈ after, ¬ Expires cfg state other := by
    rintro other hother ⟨hwait, -⟩
    rw [hafter other hother] at hwait
    cases hwait
  refine ⟨woken, hrun, ?_, ?_, ?_, ?_⟩
  · intro other hmem hwait hleft
    have hne : other ≠ task := fun h => hleft (h ▸ hexpires.2)
    have hother : other ∈ before := by
      rcases List.mem_append.mp hmem with hother | hother
      · exact hother
      · have hbehind := (List.mem_cons.mp hother).resolve_left hne
        rw [hafter other hbehind] at hwait
        cases hwait
    rw [hstatus, Function.update_of_ne hne, (hothers other hne).2, if_pos hother]
    exact ⟨hwait, rfl⟩
  · intro other hmem hother
    have htask : other = task := by
      rcases List.mem_append.mp hmem with hahead | hahead
      · exact absurd hother.2 (hbefore other hahead).2
      · exact (List.mem_cons.mp hahead).resolve_right fun hbehind => hpaused other hbehind hother
    subst htask
    rw [hstatus, Function.update_self]
    exact ⟨rfl, hspent⟩
  · intro other hmem hpause
    have hahead : other ∉ before := fun h => by
      rw [(hbefore other h).1] at hpause
      cases hpause
    have hne : other ≠ task := by
      rintro rfl
      rw [hexpires.1] at hpause
      cases hpause
    rw [hstatus, Function.update_of_ne hne, (hothers other hne).2, if_neg hahead,
      (hothers other hne).1]
    exact ⟨hpause, rfl, rfl⟩
  · have hfilter : (before ++ task :: after).filter (fun other => ¬ Expires cfg state other) =
        (before ++ task :: after).erase task := by
      rw [List.erase_append_right _ hfresh, List.erase_cons_head, List.filter_append,
        List.filter_cons_of_neg (by simpa using hexpires)]
      congr 1
      · apply List.filter_eq_self.mpr
        intro other hother
        simpa using fun h : Expires cfg state other => (hbefore other hother).2 h.2
      · apply List.filter_eq_self.mpr
        intro other hother
        simpa using hpaused other hother
    rwa [hfilter]

/-- A tick that did what it should found the list so. -/
theorem dueLast_of_ticked (hlist : state.ListIs .wait (first :: tasks))
    (hblocked : ∀ task ∈ first :: tasks, (state.status task).Blocked)
    (hswept : SweptTo cfg (state.awaited first) (first :: tasks) state state')
    (hticked : Ticked cfg (first :: tasks) state state') :
    DueLast cfg (first :: tasks) state := by
  rcases hswept with ⟨hall, rfl⟩ | ⟨before, task, hfirst, hrun⟩
  · refine .inl fun task htask => ⟨(hall task htask).1, fun hdue => ?_⟩
    have hready := (hticked.due task htask ⟨(hall task htask).1, hdue⟩).1
    rw [status_tickAll, (hall task htask).1] at hready
    cases hready
  · obtain ⟨woken, hrun', -, hstatus, -, hothers⟩ := exists_woken hlist hfirst
    obtain rfl := Outcome.done.inj (hrun.symm.trans hrun')
    obtain ⟨after, hsplit⟩ := hfirst.split
    have hnodup := hlist.ring.nodup
    rw [hsplit] at hnodup
    have hmem : ∀ other ∈ before, other ∈ first :: tasks := fun other hother => by
      rw [hsplit]
      exact List.mem_append_left _ hother
    have hmem' : ∀ other ∈ task :: after, other ∈ first :: tasks := fun other hother => by
      rw [hsplit]
      exact List.mem_append_right _ hother
    have hbefore : ∀ other ∈ before, state.status other = .wait ∧ ¬ OwnDue cfg state other := by
      intro other hother
      have hne : other ≠ task := fun h =>
        List.disjoint_of_nodup_append hnodup (h ▸ hother) List.mem_cons_self
      refine ⟨(hfirst.before other hother).1, fun hdue => ?_⟩
      have hready := (hticked.due other (hmem other hother)
        ⟨(hfirst.before other hother).1, hdue⟩).1
      rw [hstatus, Function.update_of_ne hne, (hfirst.before other hother).1] at hready
      cases hready
    have hexpires : Expires cfg state task := by
      refine ⟨hfirst.status, ?_⟩
      by_contra hleft
      have hwait := (hticked.waiting task (hmem' task List.mem_cons_self) hfirst.status hleft).1
      rw [hstatus, Function.update_self] at hwait
      cases hwait
    refine .inr ⟨before, task, after, hsplit, hbefore, hexpires, ?_, fun other hother => ?_⟩
    · cases before with
      | nil => exact .inl rfl
      | cons head before =>
          obtain ⟨rfl, -⟩ := List.cons.inj hsplit
          exact .inr ((due_iff_of_head (hbefore first List.mem_cons_self).2).mp hfirst.due)
    · have hne : other ≠ task := by
        rintro rfl
        exact (List.nodup_cons.mp hnodup.of_append_right).1 hother
      have hahead : other ∉ before := fun h =>
        List.disjoint_of_nodup_append hnodup h (List.mem_cons_of_mem task hother)
      have hlisted := hmem' other (List.mem_cons_of_mem task hother)
      -- a waiting task behind the woken one has neither been woken nor lost a tick
      refine (hblocked other hlisted).resolve_left fun hwait => ?_
      by_cases hdue : OwnDue cfg state other
      · have hready := (hticked.due other hlisted ⟨hwait, hdue⟩).1
        rw [hstatus, Function.update_of_ne hne, hwait] at hready
        cases hready
      · have hdelay := (hticked.waiting other hlisted hwait hdue).2
        rw [(hothers other hne).2, if_neg hahead] at hdelay
        exact cfg.sizePred_ne _ hdelay.symm

/-- And on such a list it does. -/
theorem exists_ticked_of_dueLast (hlist : state.ListIs .wait (first :: tasks))
    (hlast : DueLast cfg (first :: tasks) state) :
    ∃ state', SweptTo cfg (state.awaited first) (first :: tasks) state state' ∧
      Ticked cfg (first :: tasks) state state' := by
  rcases hlast with hall | ⟨before, task, after, hsplit, hbefore, hexpires, hspent, hafter⟩
  · have hleft : ∀ task ∈ first :: tasks, ¬ Due cfg (state.awaited first) state task := by
      intro task htask
      rw [due_iff_of_head (hall first List.mem_cons_self).2]
      exact fun hspent => (hall task htask).2 (.inl hspent)
    exact ⟨_, .inl ⟨fun task htask => ⟨(hall task htask).1, hleft task htask⟩, rfl⟩,
      ticked_tickAll hlist hall hleft⟩
  · have hfirst : FirstDue cfg (state.awaited first) state (first :: tasks) before task := by
      cases before with
      | nil =>
          obtain ⟨rfl, -⟩ := List.cons.inj hsplit
          exact ⟨⟨after, hsplit⟩, by simp, hexpires.1, hexpires.2⟩
      | cons head before =>
          obtain ⟨rfl, -⟩ := List.cons.inj hsplit
          have hhead := (hbefore first List.mem_cons_self).2
          refine ⟨⟨after, hsplit⟩, fun other hother => ⟨(hbefore other hother).1, ?_⟩, hexpires.1,
            (due_iff_of_head hhead).mpr (hspent.resolve_left (List.cons_ne_nil _ _))⟩
          rw [due_iff_of_head hhead]
          exact fun hticks => (hbefore other hother).2 (.inl hticks)
    rw [hsplit] at hlist hfirst ⊢
    obtain ⟨state', hrun, hticked⟩ := exists_ticked_woken hlist hfirst hbefore hexpires hafter
    exact ⟨state', .inr ⟨before, task, hfirst, hrun⟩, hticked⟩

/-- On a list that is not empty the sweep starts from the head, and reads its resource. -/
theorem returns_adjustment_iff (hlist : state.ListIs .wait (first :: tasks)) :
    Returns (fun fuel => heliosSchedWaitListAdjustment cfg fuel state) state' ↔
      SweptTo cfg (state.awaited first) (first :: tasks) state state' := by
  have hhead : state.waitListHead = some first := hlist.head
  rw [← @returns_sweepRing_iff cfg state state' _ first [] tasks hlist]
  simp only [heliosSchedWaitListAdjustment, hhead]
  rfl

theorem dueLast_of_ticksList (hlist : state.ListIs .wait (first :: tasks))
    (hblocked : ∀ task ∈ first :: tasks, (state.status task).Blocked)
    (hticks : TicksList cfg (first :: tasks) state) : DueLast cfg (first :: tasks) state := by
  obtain ⟨state', hreturns, hticked⟩ := hticks
  exact dueLast_of_ticked hlist hblocked ((returns_adjustment_iff hlist).mp hreturns) hticked

/-- A tick does to the list what it should exactly if it wakes nobody, and nobody is paused, or
wakes a task with only paused ones behind it. -/
theorem ticksList_iff (hlist : state.ListIs .wait queue)
    (hblocked : ∀ task ∈ queue, (state.status task).Blocked) :
    TicksList cfg queue state ↔ DueLast cfg queue state := by
  cases queue with
  | nil =>
      have hhead : state.waitListHead = none := hlist.head
      have hempty : tickAll cfg 0 [] state = state := rfl
      refine iff_of_true ⟨state, ?_, hempty ▸ ticked_tickAll hlist (by simp) (by simp)⟩
        (.inl (by simp))
      simp only [heliosSchedWaitListAdjustment, hhead]
      exact returns_done_iff.mpr rfl
  | cons first tasks =>
      constructor
      · exact dueLast_of_ticksList hlist hblocked
      · intro hlast
        obtain ⟨state', hswept, hticked⟩ := exists_ticked_of_dueLast hlist hlast
        exact ⟨state', (returns_adjustment_iff hlist).mpr hswept, hticked⟩

/-- Two waiting tasks with the given ticks, the first heading the list. -/
def sleepingPair (ticks ticks' : ℕ) : SchedState :=
  ((((readyPair.setDelay 1 ticks).setDelay 2 ticks').setStatus 1 .wait).setStatus 2 .wait).putList
    .wait ⟨fun task => some (3 - task), fun task => some (3 - task)⟩ (some 1)

theorem sleepingPair_listIs (ticks ticks' : ℕ) :
    (sleepingPair ticks ticks').ListIs .wait [1, 2] :=
  ⟨⟨by decide, .cons_cons ⟨rfl, rfl⟩ (.cons_cons ⟨rfl, rfl⟩ (.singleton 1))⟩, rfl⟩

theorem sleepingPair_status (ticks ticks' : ℕ) :
    ∀ task ∈ [1, 2], (sleepingPair ticks ticks').status task = .wait := by
  intro task htask
  have hpair : task = 1 ∨ task = 2 := by simpa using htask
  rcases hpair with rfl | rfl
  · rfl
  · rfl

/-- The last task of the list is woken, and the one ahead of it loses a tick. -/
theorem ticksList_sleepingPair : TicksList (defaultConfig false) [1, 2] (sleepingPair 5 1) := by
  have hblocked : ∀ task ∈ [1, 2], ((sleepingPair 5 1).status task).Blocked :=
    fun task htask => .inl (sleepingPair_status 5 1 task htask)
  refine (ticksList_iff (sleepingPair_listIs 5 1) hblocked).mpr
    (.inr ⟨[1], 2, [], rfl, ?_, ?_, .inr (by decide), by simp⟩)
  · decide
  · decide

/-- Behind a head that is woken, a task does not lose its tick. -/
theorem not_ticksList_sleepingPair :
    (sleepingPair 1 5).ListIs .wait [1, 2] ∧
      (∀ task ∈ [1, 2], (sleepingPair 1 5).status task = .wait) ∧
      ¬ TicksList (defaultConfig false) [1, 2] (sleepingPair 1 5) := by
  refine ⟨sleepingPair_listIs 1 5, sleepingPair_status 1 5, fun hticks => ?_⟩
  have hblocked : ∀ task ∈ [1, 2], ((sleepingPair 1 5).status task).Blocked :=
    fun task htask => .inl (sleepingPair_status 1 5 task htask)
  have hfirst : OwnDue (defaultConfig false) (sleepingPair 1 5) 1 := by decide
  rcases dueLast_of_ticksList (sleepingPair_listIs 1 5) hblocked hticks with
    hall | ⟨before, task, after, hsplit, hbefore, -, -, hafter⟩
  · exact (hall 1 (by simp)).2 hfirst
  · cases before with
    | nil =>
        obtain ⟨rfl, rfl⟩ := List.cons.inj hsplit
        exact absurd (hafter 2 (by simp)) (by decide)
    | cons head before =>
        obtain ⟨rfl, -⟩ := List.cons.inj hsplit
        exact (hbefore 1 (by simp)).2 hfirst

end Cyancore.Helios
