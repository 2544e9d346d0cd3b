/-
# The order of starting and stopping

256 passes over the driver table, each of which takes the devices of one rank, are one
pass over the table sorted by rank.  `driver_setup_all` makes them in increasing order of
`sorder`, which is the stable sort by the start rank.  `driver_exit_all` makes them in
decreasing order, but of the same rank: the exit rank of the devices plays no part in it.
-/

import Cyancore.Driver.Driver
import Cyancore.Math.Buckets

namespace Cyancore.Driver

open Cyancore.Math

variable {n : ℕ} {ω : Type} {callback : Callback} {state : DriverState n ω}

/-! ## Passes as one list of calls -/

/-- The listed devices, one call after the other. -/
def callEach (callback : Callback) (ptrs : List (Fin n))
    (acc : StatusCode × DriverState n ω) : StatusCode × DriverState n ω :=
  ptrs.foldl (orCall (callDriver callback)) acc

/-- A call changes at most the flag of its device. -/
theorem callDevice_keeps (callback : Callback) (dev : Device ω) (world : ω) :
    ∃ flag, (callDevice callback dev world).2.1 = dev.setExec flag := by
  cases callback with
  | setup =>
      simp only [callDevice, registerDevice]
      split
      · exact ⟨dev.exec, rfl⟩
      · split
        · exact ⟨dev.exec, rfl⟩
        · exact ⟨true, rfl⟩
  | exit =>
      simp only [callDevice, deregisterDevice]
      split
      · exact ⟨dev.exec, rfl⟩
      · split
        · exact ⟨dev.exec, rfl⟩
        · exact ⟨false, rfl⟩

theorem callDriver_table_of_ne {ptr other : Fin n} (hne : other ≠ ptr) :
    (callDriver callback ptr state).2.table other = state.table other :=
  Function.update_of_ne hne _ _

/-- Reading anything but the flag of a device is not affected by calls. -/
theorem callDriver_read {β : Type} (read : Device ω → β)
    (hread : ∀ dev flag, read (dev.setExec flag) = read dev) (ptr other : Fin n) :
    read ((callDriver callback ptr state).2.table other) = read (state.table other) := by
  by_cases heq : other = ptr
  · subst heq
    obtain ⟨flag, hflag⟩ := callDevice_keeps callback (state.table other) state.world
    have hself : (callDriver callback other state).2.table other =
        (callDevice callback (state.table other) state.world).2.1 := Function.update_self ..
    rw [hself, hflag, hread]
  · rw [callDriver_table_of_ne heq]

/-- The start ranks of the devices. -/
def DriverState.sorder (state : DriverState n ω) (ptr : Fin n) : ℕ := (state.table ptr).sorder

theorem sorder_callDriver (ptr : Fin n) :
    (callDriver callback ptr state).2.sorder = state.sorder := by
  ext other
  exact callDriver_read (fun dev => (dev.sorder : ℕ)) (fun _ _ => rfl) ptr other

theorem sorder_callEach (ptrs : List (Fin n)) (acc : StatusCode × DriverState n ω) :
    (callEach callback ptrs acc).2.sorder = acc.2.sorder := by
  induction ptrs generalizing acc with
  | nil => rfl
  | cons ptr ptrs ih =>
      exact (ih (orCall (callDriver callback) acc ptr)).trans (sorder_callDriver ptr)

/-- The combined result picks up from where it was. -/
theorem callEach_fst (ptrs : List (Fin n)) (ret : StatusCode) :
    callEach callback ptrs (ret, state) =
      (ret ||| (callEach callback ptrs (StatusCode.success, state)).1,
        (callEach callback ptrs (StatusCode.success, state)).2) := by
  induction ptrs generalizing ret state with
  | nil => simp [callEach, StatusCode.success]
  | cons ptr ptrs ih =>
      have hstep : ∀ start, callEach callback (ptr :: ptrs) (start, state) =
          callEach callback ptrs (start ||| (callDriver callback ptr state).1,
            (callDriver callback ptr state).2) := fun _ => rfl
      rw [hstep, hstep, ih, ih (StatusCode.success ||| _)]
      simp [StatusCode.success, Nat.or_assoc]

/-- A pass calls the devices of its rank. -/
theorem passWithOrder_eq (order : ℕ) :
    passWithOrder (callDriver callback) order state =
      callEach callback ((List.finRange n).filter (state.sorder · = order))
        (StatusCode.success, state) := by
  have hfold : ∀ (ptrs : List (Fin n)) (acc : StatusCode × DriverState n ω),
      acc.2.sorder = state.sorder →
      ptrs.foldl (fun acc ptr => if order = (acc.2.table ptr).sorder
        then orCall (callDriver callback) acc ptr else acc) acc =
      callEach callback (ptrs.filter (state.sorder · = order)) acc := by
    intro ptrs
    induction ptrs with
    | nil => exact fun _ _ => rfl
    | cons ptr ptrs ih =>
        intro acc hacc
        have hrank : ((acc.2.table ptr).sorder : ℕ) = state.sorder ptr := congrFun hacc ptr
        by_cases horder : state.sorder ptr = order
        · rw [List.foldl_cons, if_pos (hrank.trans horder).symm,
            ih (orCall (callDriver callback) acc ptr) ((sorder_callDriver ptr).trans hacc),
            List.filter_cons_of_pos (by simpa)]
          rfl
        · rw [List.foldl_cons, if_neg fun h => horder (hrank.symm.trans h.symm), ih _ hacc,
            List.filter_cons_of_neg (by simpa)]
  exact hfold _ _ rfl

/-- All passes together call the devices by rank. -/
theorem allPasses_eq (orders : List ℕ) :
    allPasses (passWithOrder (callDriver callback)) orders state =
      callEach callback (buckets orders state.sorder (List.finRange n))
        (StatusCode.success, state) := by
  have hfold : ∀ (orders : List ℕ) (acc : StatusCode × DriverState n ω),
      acc.2.sorder = state.sorder →
      orders.foldl (fun acc order =>
        let (result, after) := passWithOrder (callDriver callback) order acc.2
        (acc.1 ||| result, after)) acc =
      callEach callback (buckets orders state.sorder (List.finRange n)) acc := by
    intro orders
    induction orders with
    | nil => exact fun _ _ => rfl
    | cons order orders ih =>
        intro acc hacc
        rw [buckets_cons_key, callEach, List.foldl_append, List.foldl_cons]
        have hpass : (acc.1 ||| (passWithOrder (callDriver callback) order acc.2).1,
            (passWithOrder (callDriver callback) order acc.2).2) =
            callEach callback ((List.finRange n).filter (state.sorder · = order)) acc := by
          rw [passWithOrder_eq, hacc, ← callEach_fst]
        refine Eq.trans ?_ (ih _ ?_)
        · exact congrArg (List.foldl _ · orders) hpass
        · exact (sorder_callEach _ _).trans hacc
  exact hfold _ _ rfl

/-! ## What a list of calls does -/

/-- Whether a call on the device invokes its callback. -/
def Device.invokes (callback : Callback) (dev : Device ω) : Bool :=
  match callback with
  | .setup => dev.percpu || !dev.exec
  | .exit => dev.percpu || dev.exec

theorem callDevice_invoked (callback : Callback) (dev : Device ω) (world : ω) :
    (callDevice callback dev world).2.2.2 = dev.invokes callback := by
  cases callback with
  | setup =>
      cases hpercpu : dev.percpu <;> cases hexec : dev.exec <;>
        simp [callDevice, registerDevice, Device.invokes, Device.flag, hpercpu, hexec]
  | exit =>
      cases hpercpu : dev.percpu <;> cases hexec : dev.exec <;>
        simp [callDevice, deregisterDevice, Device.invokes, Device.flag, hpercpu, hexec]

/-- The devices whose callbacks were invoked, in order. -/
def invokedDevs (calls : List (Call n)) : List (Fin n) := (calls.filter (·.invoked)).map (·.dev)

/-- Calls on different devices are recorded one after the other, invoke the callbacks that the
table had due, and have their results combined. -/
theorem exists_calls_callEach (callback : Callback) {ptrs : List (Fin n)} (hnodup : ptrs.Nodup)
    (ret : StatusCode) (state : DriverState n ω) :
    ∃ new : List (Call n),
      (callEach callback ptrs (ret, state)).2.calls = state.calls ++ new ∧
      new.map (·.dev) = ptrs ∧
      invokedDevs new = ptrs.filter (fun ptr => (state.table ptr).invokes callback) ∧
      (callEach callback ptrs (ret, state)).1 = (new.map (·.result)).foldl (· ||| ·) ret := by
  induction ptrs generalizing ret state with
  | nil => exact ⟨[], by simp [callEach], rfl, rfl, rfl⟩
  | cons ptr ptrs ih =>
      obtain ⟨hptr, hnodup⟩ := List.nodup_cons.mp hnodup
      obtain ⟨new, hcalls, hdevs, hinvoked, hret⟩ := ih hnodup
        (ret ||| (callDriver callback ptr state).1) (callDriver callback ptr state).2
      have hstep : callEach callback (ptr :: ptrs) (ret, state) =
          callEach callback ptrs (ret ||| (callDriver callback ptr state).1,
            (callDriver callback ptr state).2) := rfl
      -- the devices still to come are as they were
      have hlater : ptrs.filter (fun other =>
          ((callDriver callback ptr state).2.table other).invokes callback) =
          ptrs.filter fun other => (state.table other).invokes callback := by
        apply List.filter_congr
        intro other hother
        have hne : other ≠ ptr := fun heq => hptr (heq ▸ hother)
        rw [callDriver_table_of_ne hne]
      rw [hstep]
      refine ⟨⟨ptr, callback, (state.table ptr).invokes callback,
        (callDriver callback ptr state).1⟩ :: new, ?_, ?_, ?_, hret⟩
      · rw [hcalls, ← callDevice_invoked callback (state.table ptr) state.world]
        simp [callDriver]
      · rw [List.map_cons, hdevs]
      · rw [hlater] at hinvoked
        rw [invokedDevs, List.filter_cons, List.filter_cons, ← hinvoked]
        split
        · rfl
        · rfl

theorem count_filter_of_mem {ptrs : List (Fin n)} (hnodup : ptrs.Nodup) (due : Fin n → Bool)
    {ptr : Fin n} (hmem : ptr ∈ ptrs) : (ptrs.filter due).count ptr = if due ptr then 1 else 0 := by
  split
  · rename_i hdue
    exact List.count_eq_one_of_mem (hnodup.filter _) (List.mem_filter.mpr ⟨hmem, hdue⟩)
  · rename_i hdue
    exact List.count_eq_zero_of_not_mem fun h => hdue (List.mem_filter.mp h).2

/-- Every device has one of the 256 ranks. -/
theorem mem_ranks (state : DriverState n ω) (ptr : Fin n) : state.sorder ptr ∈ List.range 256 :=
  List.mem_range.mpr (state.table ptr).sorder.isLt

/-! ## Starting all devices -/

/-- The devices in the order of their start ranks, and of the table within a rank. -/
def bootOrder (table : Fin n → Device ω) : List (Fin n) :=
  (List.finRange n).insertionSort fun p q => (table p).sorder.val ≤ (table q).sorder.val

theorem driverSetupAll_eq (state : DriverState n ω) :
    driverSetupAll state =
      callEach .setup (bootOrder state.table) (StatusCode.success, state) := by
  have hsort : buckets (List.range 256) state.sorder (List.finRange n) = bootOrder state.table :=
    buckets_eq_insertionSort List.pairwise_lt_range fun ptr _ => mem_ranks state ptr
  have hpass : @driverRegisterWithOrder ω n = passWithOrder (callDriver .setup) := rfl
  rw [driverSetupAll, hpass, allPasses_eq, hsort]

/-- `driver_setup_all` registers every device once, by start rank and in table order within a
rank; it invokes `driver_setup` of exactly those that are `percpu` or have `exec` clear, and
returns the results of all registrations combined. -/
theorem driverSetupAll_order (table : Fin n → Device ω) (world : ω) :
    let after := driverSetupAll ⟨table, world, []⟩
    after.2.calls.map (·.dev) = bootOrder table ∧
      invokedDevs after.2.calls =
        (bootOrder table).filter (fun ptr => (table ptr).percpu || !(table ptr).exec) ∧
      (∀ ptr, (invokedDevs after.2.calls).count ptr =
        if (table ptr).percpu || !(table ptr).exec then 1 else 0) ∧
      after.1 = StatusCode.orAll (after.2.calls.map (·.result)) := by
  intro after
  have hperm : (bootOrder table).Perm (List.finRange n) := List.perm_insertionSort _ _
  have hnodup : (bootOrder table).Nodup := hperm.nodup_iff.mpr (List.nodup_finRange n)
  obtain ⟨new, hcalls, hdevs, hinvoked, hret⟩ :=
    exists_calls_callEach .setup hnodup StatusCode.success ⟨table, world, []⟩
  rw [← driverSetupAll_eq ⟨table, world, []⟩] at hcalls hret
  have hnew : after.2.calls = new := hcalls
  refine ⟨?_, ?_, fun ptr => ?_, ?_⟩
  · rw [hnew, hdevs]
  · rw [hnew, hinvoked]
    rfl
  · rw [hnew, hinvoked]
    exact count_filter_of_mem hnodup _ (hperm.mem_iff.mpr (List.mem_finRange ptr))
  · rw [hnew]
    exact hret

/-! ## Stopping all devices -/

/-- The devices in the order in which `driver_exit_all` comes to them. -/
def shutdownOrder (table : Fin n → Device ω) : List (Fin n) :=
  buckets (List.range 256).reverse (fun ptr => (table ptr).sorder.val) (List.finRange n)

theorem driverExitAll_eq (state : DriverState n ω) :
    driverExitAll state =
      callEach .exit (shutdownOrder state.table) (StatusCode.success, state) := by
  have hpass : @driverDeregisterWithOrder ω n = passWithOrder (callDriver .exit) := rfl
  have hrank : state.sorder = fun ptr => (state.table ptr).sorder.val := rfl
  rw [driverExitAll, hpass, allPasses_eq, hrank, shutdownOrder]

/-- `driver_exit_all` comes to `p` before it comes to `q`. -/
def ExitsBefore (table : Fin n → Device ω) (p q : Fin n) : Prop :=
  (table q).sorder < (table p).sorder ∨ (table p).sorder = (table q).sorder ∧ p < q

theorem ExitsBefore.asymm {table : Fin n → Device ω} {p q : Fin n} (hpq : ExitsBefore table p q)
    (hqp : ExitsBefore table q p) : False := by
  rcases hpq with hlt | ⟨heq, hlt⟩
  · rcases hqp with hlt' | ⟨heq', -⟩
    · exact lt_asymm hlt hlt'
    · exact hlt.ne heq'
  · rcases hqp with hlt' | ⟨-, hlt'⟩
    · exact hlt'.ne heq
    · exact lt_asymm hlt hlt'

theorem pairwise_shutdownOrder (table : Fin n → Device ω) :
    (shutdownOrder table).Pairwise (ExitsBefore table) := by
  have hranks : (List.range 256).reverse.Pairwise (· > ·) :=
    List.pairwise_reverse.mpr List.pairwise_lt_range
  apply (pairwise_buckets hranks (List.pairwise_lt_finRange n)).imp
  rintro p q (hrank | ⟨hrank, hlt⟩)
  · exact .inl hrank
  · exact .inr ⟨Fin.ext hrank, hlt⟩

theorem mem_shutdownOrder (table : Fin n → Device ω) (ptr : Fin n) : ptr ∈ shutdownOrder table := by
  rw [shutdownOrder, mem_buckets, List.mem_reverse, List.mem_range]
  exact ⟨List.mem_finRange ptr, (table ptr).sorder.isLt⟩

theorem nodup_shutdownOrder (table : Fin n → Device ω) : (shutdownOrder table).Nodup := by
  apply (pairwise_shutdownOrder table).imp
  rintro p q hbefore rfl
  exact hbefore.asymm hbefore

/-- The devices whose `driver_exit` is invoked by `driver_exit_all`, in order. -/
theorem invokedDevs_driverExitAll (table : Fin n → Device ω) (world : ω) :
    invokedDevs (driverExitAll ⟨table, world, []⟩).2.calls =
      (shutdownOrder table).filter fun ptr => (table ptr).percpu || (table ptr).exec := by
  obtain ⟨new, hcalls, -, hinvoked, -⟩ :=
    exists_calls_callEach .exit (nodup_shutdownOrder table) StatusCode.success ⟨table, world, []⟩
  rw [← driverExitAll_eq ⟨table, world, []⟩] at hcalls
  have hnew : (driverExitAll ⟨table, world, []⟩).2.calls = new := hcalls
  rw [hnew, hinvoked]
  rfl

/-- `driver_exit` is invoked once for every device that is `percpu` or has `exec` set, in
decreasing order of the exit rank. -/
structure ExitsInOrder (table : Fin n → Device ω) (world : ω) : Prop where
  once : ∀ ptr, (invokedDevs (driverExitAll ⟨table, world, []⟩).2.calls).count ptr =
    if (table ptr).percpu || (table ptr).exec then 1 else 0
  order : (invokedDevs (driverExitAll ⟨table, world, []⟩).2.calls).Pairwise
    fun p q => (table q).eorder ≤ (table p).eorder

/-- The exit ranks are respected exactly when they agree with the start ranks, and with the table
among devices of one start rank. -/
theorem exitsInOrder_iff (table : Fin n → Device ω) (world : ω) :
    ExitsInOrder table world ↔
      ∀ p q, ((table p).percpu || (table p).exec) = true →
        ((table q).percpu || (table q).exec) = true →
        (table q).sorder < (table p).sorder ∨ (table p).sorder = (table q).sorder ∧ p < q →
        (table q).eorder ≤ (table p).eorder := by
  have hexits := invokedDevs_driverExitAll table world
  have hpairwise := (pairwise_shutdownOrder table).filter
    fun ptr => (table ptr).percpu || (table ptr).exec
  constructor
  · intro hinorder p q hp hq hbefore
    have horder := hinorder.order
    rw [hexits] at horder
    apply rel_of_pairwise (fun _ _ => ExitsBefore.asymm) hpairwise horder _ _ hbefore
    · exact List.mem_filter.mpr ⟨mem_shutdownOrder table p, hp⟩
    · exact List.mem_filter.mpr ⟨mem_shutdownOrder table q, hq⟩
  · intro hranks
    constructor
    · intro ptr
      rw [hexits]
      exact count_filter_of_mem (nodup_shutdownOrder table) _ (mem_shutdownOrder table ptr)
    · rw [hexits]
      apply hpairwise.imp_of_mem
      intro p q hp hq hbefore
      exact hranks p q (List.mem_filter.mp hp).2 (List.mem_filter.mp hq).2 hbefore

/-- Two started devices, of which the first starts first and is to stop first. -/
def crossedRanks (ptr : Fin 2) : Device Unit where
  name := if ptr = 0 then "first" else "second"
  driverSetup _ := (StatusCode.success, ())
  driverExit _ := (StatusCode.success, ())
  sorder := if ptr = 0 then 0 else 1
  eorder := if ptr = 0 then 1 else 0
  exec := true
  percpu := false

/-- The second device is stopped first although its exit rank is lower. -/
theorem not_exitsInOrder_crossedRanks : ¬ ExitsInOrder crossedRanks () := by
  intro hinorder
  have horder := hinorder.order
  rw [invokedDevs_driverExitAll] at horder
  have hle := rel_of_pairwise (fun _ _ => ExitsBefore.asymm)
    ((pairwise_shutdownOrder crossedRanks).filter _) horder
    (List.mem_filter.mpr ⟨mem_shutdownOrder crossedRanks 1, rfl⟩)
    (List.mem_filter.mpr ⟨mem_shutdownOrder crossedRanks 0, rfl⟩) (.inl (by decide))
  exact absurd hle (by decide)

end Cyancore.Driver
