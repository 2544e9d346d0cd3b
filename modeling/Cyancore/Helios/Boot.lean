/-
# Tasks added before the kernel runs

Until `helios_run` there is no current task, so every `helios_add_task` pauses all
tasks, links the new one in by priority and resumes all tasks again.  The ready list
after any sequence of accepted calls is the stable sort of the added tasks by
priority.  `helios_run` adds the idle task in the same way, and so behind every task
that shares its priority.
-/

import Cyancore.Helios.ReadyList

namespace Cyancore.Helios

open Cyancore.Math

/-- A call of `helios_add_task` that passes its assertions and obtains memory: a stack, and
a control block in which the two ready pointers hold the same value, as they do in
zero-filled memory. -/
structure AddCall where
  args : TaskArgs
  block : Addr
  contents : Tcb
  stack : ℕ
  accepted : args.Accepted
  new : contents.readyLink.next = contents.readyLink.prev
  stack_ne_zero : stack ≠ 0

/-- The answers of `helios_malloc` to the call. -/
def AddCall.memory (call : AddCall) : TaskMemory := ⟨some call.block, call.contents, call.stack⟩

/-- The control block once its details are filled in. -/
def AddCall.tcb (cfg : HeliosConfig) (call : AddCall) : Tcb :=
  fillTcb cfg call.args { call.contents with stackPtr := call.stack }

/-- The state reached from boot by the listed calls, each on memory not in use. -/
inductive BootRun (cfg : HeliosConfig) : List AddCall → SchedState → Prop
  | start (tcb : Addr → Tcb) (resource : ℕ → ℤ) (heapBlocks : List ℕ) :
      BootRun cfg [] (bootState tcb resource heapBlocks)
  | add {calls : List AddCall} {state state' : SchedState} {call : AddCall} {status : Status}
      {handle : ℕ} (hrun : BootRun cfg calls state) (hunused : call.block ∉ state.heapBlocks)
      (hadd : Returns (fun fuel => heliosAddTask cfg fuel 0 call.args call.memory state)
        (status, handle, state')) :
      BootRun cfg (calls ++ [call]) state'

/-- `addr->task_id`. -/
def SchedState.taskId (state : SchedState) (addr : Addr) : ℕ := (state.tcb addr).taskId

/-- The ready list is a ring of the given tasks in order of priority, tasks of one priority
in the order given. -/
structure ReadySorted (state : SchedState) (tasks queue : List Addr) : Prop where
  list : state.ListIs .ready queue
  perm : queue.Perm tasks
  sorted : KeySorted state.priority queue
  stable : ∀ priority,
    queue.filter (fun task => decide (state.priority task = priority)) =
      tasks.filter fun task => decide (state.priority task = priority)

/-- What holds of the scheduler after the listed calls. -/
structure BootInv (calls : List AddCall) (state : SchedState) : Prop where
  ready : ∃ queue, ReadySorted state (calls.map AddCall.block) queue
  wait : state.ListIs .wait []
  curr : state.currTask = none
  status : ∀ call ∈ calls, state.status call.block = .ready
  priority : ∀ call ∈ calls, state.priority call.block = call.args.priority
  ids : calls.map (fun call => state.taskId call.block) =
    (List.range calls.length).map fun k => (k + 1) % 2 ^ 16
  taskIdGen : state.taskIdGen = calls.length % 2 ^ 16
  blocks : ∀ call ∈ calls, call.block ∈ state.heapBlocks

section Add

variable {cfg : HeliosConfig} {calls : List AddCall} {call : AddCall} {state : SchedState}
  {queue : List Addr}

/-- The state with a new control block and stack in place. -/
def SchedState.withTask (state : SchedState) (block : Addr) (tcb : Tcb) (stack : ℕ) : SchedState :=
  { state with
    tcb := Function.update state.tcb block tcb
    heapBlocks := stack :: block :: state.heapBlocks }

/-- A list that does not hold the block keeps its ring. -/
theorem SchedState.ListIs.withTask {linkType : LinkType} (hlist : state.ListIs linkType queue)
    {block : Addr} (hfresh : block ∉ queue) (tcb : Tcb) (stack : ℕ) :
    (state.withTask block tcb stack).ListIs linkType queue := by
  have hkeep : ∀ task ∈ queue, (state.withTask block tcb stack).tcb task = state.tcb task := by
    intro task htask
    have hne : task ≠ block := fun h => hfresh (h ▸ htask)
    exact Function.update_of_ne hne _ _
  refine ⟨hlist.ring.congr ?_ ?_, ?_⟩
  · intro task htask
    simp [next, hkeep task htask]
  · intro task htask
    simp [prev, hkeep task htask]
  · cases linkType <;> exact hlist.head

theorem SchedState.priority_withTask (block : Addr) (tcb : Tcb) (stack : ℕ) :
    (state.withTask block tcb stack).priority =
      Function.update state.priority block tcb.priority := by
  funext task
  simp only [priority, withTask, Function.update_apply]
  split <;> rfl

theorem SchedState.status_withTask (block : Addr) (tcb : Tcb) (stack : ℕ) :
    (state.withTask block tcb stack).status =
      Function.update state.status block tcb.taskStatus := by
  funext task
  simp only [status, withTask, Function.update_apply]
  split <;> rfl

@[simp]
theorem SchedState.taskId_putList (linkType : LinkType) (links : Links Addr)
    (head : Option Addr) : (state.putList linkType links head).taskId = state.taskId := by
  cases linkType <;> rfl

theorem SchedState.taskId_withTask (block : Addr) (tcb : Tcb) (stack : ℕ) :
    (state.withTask block tcb stack).taskId = Function.update state.taskId block tcb.taskId := by
  funext task
  simp only [taskId, withTask, Function.update_apply]
  split <;> rfl

/-- `args_ptr` and `name` of a task. -/
def SchedState.given (state : SchedState) (addr : Addr) : ℕ × Option String :=
  ((state.tcb addr).argsPtr, (state.tcb addr).name)

@[simp]
theorem SchedState.given_putList (linkType : LinkType) (links : Links Addr)
    (head : Option Addr) : (state.putList linkType links head).given = state.given := by
  cases linkType <;> rfl

theorem SchedState.given_withTask (block : Addr) (tcb : Tcb) (stack : ℕ) :
    (state.withTask block tcb stack).given =
      Function.update state.given block (tcb.argsPtr, tcb.name) := by
  funext task
  simp only [given, withTask, Function.update_apply]
  split <;> rfl

/-- A new key on a task that is not queued keeps the order of the queue. -/
theorem keySorted_update {key : Addr → ℕ} (hsorted : KeySorted key queue) {block : Addr}
    (hfresh : block ∉ queue) (value : ℕ) :
    KeySorted (Function.update key block value) queue := by
  refine List.Pairwise.imp_of_mem ?_ hsorted
  intro first second hfirst hsecond hle
  have hne : first ≠ block := fun h => hfresh (h ▸ hfirst)
  have hne' : second ≠ block := fun h => hfresh (h ▸ hsecond)
  simpa [hne, hne'] using hle

/-- Linking a new task into the ready list, empty or not, inserts it stably by priority. -/
theorem eventually_place (hlist : state.ListIs .ready queue)
    (hsorted : KeySorted state.priority queue) {block : Addr} (hfresh : block ∉ queue)
    (hnew : state.next .ready block = state.prev .ready block) :
    ∃ links : Links Addr, links.Ring (insertByKey state.priority block queue) ∧
      ∃ enough, ∀ fuel, enough ≤ fuel →
        heliosSchedSendBackOfTaskPrio fuel (some block) (linkFirst block state) =
          .done (.success,
            state.putList .ready links (insertByKey state.priority block queue).head?) := by
  have hhead : state.readyListHead = queue.head? := hlist.head
  by_cases hqueue : queue = []
  · subst hqueue
    refine ⟨_, (state.links .ready).ring_alone block, 0, fun fuel _ => ?_⟩
    have hself : linkFirst block state =
        state.putList .ready ((state.links .ready).alone block) (some block) := by
      rw [linkFirst, if_pos (show state.readyListHead = none from hhead),
        SchedState.setPrev_eq_putList, SchedState.setNext_eq_putList]
      rfl
    rw [hself]
    simp [heliosSchedSendBackOfTaskPrio, insertByKey]
  · obtain ⟨links, hring, hreturns⟩ :=
      returns_sendBackOfTaskPrio_of_fresh hlist hqueue hfresh hsorted hnew
    have hnone : state.readyListHead ≠ none := by simpa [hhead] using hqueue
    rw [linkFirst, if_neg hnone]
    exact ⟨links, hring, hreturns.eventually (fuelMono_sendBackOfTaskPrio _ _)⟩

/-- The last stores of `helios_add_task` to the new control block. -/
def SchedState.register (state : SchedState) (block : Addr) (id : ℕ) : SchedState :=
  { state.setStatus block .ready with taskIdGen := id }.modify block fun task =>
    { task with taskId := id }

theorem SchedState.links_register (linkType : LinkType) (block : Addr) (id : ℕ) :
    (state.register block id).links linkType = state.links linkType := by
  rw [register, links_modify _ _ _ _ fun _ => by cases linkType <;> rfl]
  exact links_setStatus state linkType block .ready

theorem SchedState.ListIs.register {linkType : LinkType} (hlist : state.ListIs linkType queue)
    (block : Addr) (id : ℕ) : (state.register block id).ListIs linkType queue :=
  ⟨by rw [SchedState.links_register]; exact hlist.ring, by cases linkType <;> exact hlist.head⟩

theorem SchedState.status_register (block : Addr) (id : ℕ) :
    (state.register block id).status = Function.update state.status block .ready := by
  rw [← status_setStatus]
  exact funext <| read_modify _ _ _ Tcb.taskStatus fun _ => rfl

theorem SchedState.priority_register (state : SchedState) (block : Addr) (id : ℕ) :
    (state.register block id).priority = state.priority := by
  rw [← priority_setStatus state block .ready]
  exact funext <| read_modify _ _ _ Tcb.priority fun _ => rfl

theorem SchedState.taskId_register (block : Addr) (id : ℕ) :
    (state.register block id).taskId = Function.update state.taskId block id := by
  have hkeep : (state.setStatus block .ready).taskId = state.taskId :=
    funext <| read_modify _ _ _ Tcb.taskId fun _ => rfl
  rw [← hkeep]
  exact funext <| read_modify_update _ _ _ Tcb.taskId fun _ => rfl

theorem SchedState.given_register (state : SchedState) (block : Addr) (id : ℕ) :
    (state.register block id).given = state.given := by
  have hkeep : (state.setStatus block .ready).given = state.given :=
    funext <| read_modify _ _ _ (fun task => (task.argsPtr, task.name)) fun _ => rfl
  rw [← hkeep]
  exact funext <| read_modify _ _ _ (fun task => (task.argsPtr, task.name)) fun _ => rfl

/-- `helios_add_task` with memory at hand, in terms of its three stages. -/
theorem heliosAddTask_eq {fuel id : ℕ} {paused placed resumed : SchedState}
    (hpause : heliosPauseAllTask cfg fuel state = .done (.success, paused))
    (hplace : heliosSchedSendBackOfTaskPrio fuel (some call.block)
      (linkFirst call.block (paused.withTask call.block (call.tcb cfg) call.stack)) =
        .done (.success, placed))
    (hid : (placed.taskIdGen + 1) % 2 ^ 16 = id)
    (hresume : heliosResumeAllTask fuel (placed.register call.block id) =
      .done (.success, resumed)) :
    heliosAddTask cfg fuel 0 call.args call.memory state = .done (.success, id, resumed) := by
  have hwith : ((((paused.claim call.block).modify call.block fun _ => call.contents).modify
        call.block fun block => { block with stackPtr := call.stack }).claim call.stack).modify
          call.block (fillTcb cfg call.args) =
      paused.withTask call.block (call.tcb cfg) call.stack := by
    simp [SchedState.claim, SchedState.modify, SchedState.withTask, AddCall.tcb]
  simp only [heliosAddTask, call.accepted, and_self, if_true, hpause, Outcome.done_bind,
    AddCall.memory, if_neg call.stack_ne_zero, hwith, hplace]
  subst hid
  have hregister :
      ((heliosTaskIdGenerate (placed.setStatus call.block .ready)).2.modify call.block
        fun block =>
          { block with taskId := (heliosTaskIdGenerate (placed.setStatus call.block .ready)).1 }) =
        placed.register call.block ((placed.taskIdGen + 1) % 2 ^ 16) := rfl
  rw [hregister, hresume]
  rfl

/-- The frame of a state fixes the fields that the boot invariant reads. -/
theorem SchedState.taskId_of_frame {state' : SchedState} (hframe : state'.frame = state.frame) :
    state'.taskId = state.taskId :=
  congrArg (fun s => s.taskId) hframe

theorem SchedState.given_of_frame {state' : SchedState} (hframe : state'.frame = state.frame) :
    state'.given = state.given :=
  congrArg (fun s => s.given) hframe

theorem ReadySorted.of_frame {state' : SchedState} {tasks : List Addr}
    (hsorted : ReadySorted state tasks queue) (hframe : state'.frame = state.frame) :
    ReadySorted state' tasks queue := by
  have hpriority := SchedState.priority_of_frame hframe
  refine ⟨hsorted.list.of_frame hframe, hsorted.perm, ?_, ?_⟩
  · rw [hpriority]
    exact hsorted.sorted
  · rw [hpriority]
    exact hsorted.stable

theorem ReadySorted.register {tasks : List Addr} (hsorted : ReadySorted state tasks queue)
    (block : Addr) (id : ℕ) : ReadySorted (state.register block id) tasks queue := by
  have hpriority := state.priority_register block id
  refine ⟨hsorted.list.register block id, hsorted.perm, ?_, ?_⟩
  · rw [hpriority]
    exact hsorted.sorted
  · rw [hpriority]
    exact hsorted.stable

/-- Filling in a new task and linking it into a sorted ready list. -/
theorem ReadySorted.place (cfg : HeliosConfig) {tasks : List Addr}
    (hready : ReadySorted state tasks queue) (hfresh : call.block ∉ queue) :
    ∃ links : Links Addr, ∃ queue', ∃ placed,
      placed = (state.withTask call.block (call.tcb cfg) call.stack).putList .ready links
        queue'.head? ∧
      ReadySorted placed (tasks ++ [call.block]) queue' ∧
      ∃ enough, ∀ fuel, enough ≤ fuel →
        heliosSchedSendBackOfTaskPrio fuel (some call.block)
          (linkFirst call.block (state.withTask call.block (call.tcb cfg) call.stack)) =
            .done (.success, placed) := by
  generalize hwithNew : state.withTask call.block (call.tcb cfg) call.stack = withNew
  have hpriority : withNew.priority =
      Function.update state.priority call.block call.args.priority := by
    rw [← hwithNew, SchedState.priority_withTask]
    rfl
  have hlist : withNew.ListIs .ready queue := hwithNew ▸ hready.list.withTask hfresh _ _
  have hsorted : KeySorted withNew.priority queue := by
    rw [hpriority]
    exact keySorted_update hready.sorted hfresh _
  have hnew : withNew.next .ready call.block = withNew.prev .ready call.block := by
    have hblock : withNew.tcb call.block = call.tcb cfg := by
      rw [← hwithNew]
      exact Function.update_self _ _ _
    rw [SchedState.next, SchedState.prev, hblock]
    exact call.new
  obtain ⟨links, hring, hplace⟩ := eventually_place hlist hsorted hfresh hnew
  refine ⟨links, _, _, rfl, ⟨⟨?_, ?_⟩, ?_, ?_, ?_⟩, hplace⟩
  · simpa using hring
  · simp
  · exact (insertByKey_perm _ _ _).trans
      ((hready.perm.cons _).trans (List.perm_append_singleton _ _).symm)
  · simpa using hsorted.insertByKey call.block
  · intro priority
    have hother : ∀ task ∈ queue, (decide (withNew.priority task = priority)) =
        decide (state.priority task = priority) := by
      intro task htask
      have hne : task ≠ call.block := fun h => hfresh (h ▸ htask)
      rw [hpriority, Function.update_of_ne hne]
    have hother' := fun task h => hother task (hready.perm.mem_iff.mpr h)
    rw [SchedState.priority_putList, hsorted.filter_insertByKey, List.filter_append,
      List.filter_append, List.filter_congr hother, hready.stable, ← List.filter_congr hother']

/-- What an addition does outside the ready list. -/
structure Added (call : AddCall) (id : ℕ) (state state' : SchedState) : Prop where
  wait : state'.ListIs .wait []
  status : state'.status = Function.update state.status call.block .ready
  priority : state'.priority = Function.update state.priority call.block call.args.priority
  taskId : state'.taskId = Function.update state.taskId call.block id
  given : state'.given = Function.update state.given call.block (call.args.args, call.args.name)
  taskIdGen : state'.taskIdGen = id
  currTask : state'.currTask = state.currTask
  selectedSched : state'.selectedSched = state.selectedSched
  heapBlocks : state'.heapBlocks = call.stack :: call.block :: state.heapBlocks

/-- An addition whose last stage has emptied the wait list and reset the statuses; the other
fields are those that the first two stages left. -/
theorem Added.of_frame {id : ℕ} {paused resumed : SchedState} {links : Links Addr}
    {head : Option Addr} (hpaused : paused.frame = state.frame)
    (hresumed : resumed.frame = (((paused.withTask call.block (call.tcb cfg) call.stack).putList
      .ready links head).register call.block id).frame)
    (hwait : resumed.ListIs .wait [])
    (hstatus : resumed.status = Function.update state.status call.block .ready) :
    Added call id state resumed where
  wait := hwait
  status := hstatus
  priority := by
    rw [SchedState.priority_of_frame hresumed, SchedState.priority_register,
      SchedState.priority_putList, SchedState.priority_withTask,
      SchedState.priority_of_frame hpaused]
    rfl
  taskId := by
    rw [SchedState.taskId_of_frame hresumed, SchedState.taskId_register,
      SchedState.taskId_putList, SchedState.taskId_withTask, Function.update_idem,
      SchedState.taskId_of_frame hpaused]
  given := by
    rw [SchedState.given_of_frame hresumed, SchedState.given_register, SchedState.given_putList,
      SchedState.given_withTask, SchedState.given_of_frame hpaused]
    rfl
  taskIdGen := SchedState.taskIdGen_of_frame hresumed
  currTask := by
    rw [SchedState.currTask_of_frame hresumed, ← SchedState.currTask_of_frame hpaused]
    rfl
  selectedSched := by
    have hkeep : paused.selectedSched = state.selectedSched :=
      congrArg (fun s => s.selectedSched) hpaused
    rw [← hkeep]
    exact congrArg (fun s => s.selectedSched) hresumed
  heapBlocks := by
    have hkeep : paused.heapBlocks = state.heapBlocks := SchedState.heapBlocks_of_frame hpaused
    rw [← hkeep]
    exact SchedState.heapBlocks_of_frame hresumed

/-- An accepted call on a new block returns, whatever ready tasks there are. -/
theorem eventually_addTask (cfg : HeliosConfig) {tasks : List Addr}
    (hready : ReadySorted state tasks queue) (hwait : state.ListIs .wait [])
    (hcurr : state.currTask = none) (hstatus : ∀ task ∈ queue, state.status task = .ready)
    (hfresh : call.block ∉ queue) :
    ∃ state' queue', Added call ((state.taskIdGen + 1) % 2 ^ 16) state state' ∧
      ReadySorted state' (tasks ++ [call.block]) queue' ∧
      ∃ enough, ∀ fuel, enough ≤ fuel →
        heliosAddTask cfg fuel 0 call.args call.memory state =
          .done (.success, (state.taskIdGen + 1) % 2 ^ 16, state') := by
  obtain ⟨paused, ⟨enough₁, hpause⟩, hwait₁, hframe₁, hstatus₁⟩ :=
    eventually_pauseAll cfg hready.list hwait (by simp [hcurr])
      fun task h => by simp [hstatus task h]
  obtain ⟨links, queue', placed, hplaced, hready₂, enough₂, hplace⟩ :=
    (hready.of_frame hframe₁).place cfg hfresh
  have hgen : (placed.taskIdGen + 1) % 2 ^ 16 = (state.taskIdGen + 1) % 2 ^ 16 := by
    have hkeep : paused.taskIdGen = state.taskIdGen := SchedState.taskIdGen_of_frame hframe₁
    rw [← hkeep, hplaced]
    rfl
  generalize hid : (state.taskIdGen + 1) % 2 ^ 16 = id at hgen ⊢
  have hwait₂ : placed.ListIs .wait queue := by
    have hkeep := hwait₁.withTask hfresh (call.tcb cfg) call.stack
    rw [hplaced]
    exact ⟨hkeep.ring, hkeep.head⟩
  have hstatus₂ : (placed.register call.block id).status =
      Function.update paused.status call.block .ready := by
    rw [SchedState.status_register, hplaced, SchedState.status_putList,
      SchedState.status_withTask, Function.update_idem]
  have hmem : ∀ task, task ∈ queue' ↔ task ∈ queue ∨ task = call.block := by
    intro task
    rw [hready₂.perm.mem_iff, List.mem_append, List.mem_singleton, hready.perm.mem_iff]
  have hqueue : queue' ≠ [] := List.ne_nil_of_mem ((hmem call.block).mpr (.inr rfl))
  have hblocked : ∀ task ∈ queue',
      task ∈ queue ↔ ((placed.register call.block id).status task).Blocked := by
    intro task htask
    rw [hstatus₂]
    by_cases heq : task = call.block
    · simp [heq, hfresh, TaskStatus.Blocked]
    · have hqueued : task ∈ queue := ((hmem task).mp htask).resolve_right heq
      simp [heq, hstatus₁, hqueued, TaskStatus.Blocked]
  obtain ⟨resumed, ⟨enough₃, hresume⟩, ⟨waiting, hwait₃, hwaiting⟩, hframe₃, hstatus₃⟩ :=
    eventually_resumeAll hqueue (hready₂.list.register call.block id)
      (hwait₂.register call.block id) hblocked
  have hnone : waiting = [] := by
    rw [List.eq_nil_iff_forall_not_mem]
    intro task htask
    obtain ⟨hqueued, hgone⟩ := (hwaiting task).mp htask
    exact hgone ((hmem task).mpr (.inl hqueued))
  have hstatus₄ : resumed.status = Function.update state.status call.block .ready := by
    funext task
    rw [hstatus₃, hstatus₂]
    by_cases heq : task = call.block
    · simp [heq, TaskStatus.resumed, TaskStatus.Blocked]
    · rw [Function.update_of_ne heq, Function.update_of_ne heq, hstatus₁]
      by_cases hqueued : task ∈ queue
      · rw [if_pos ((hmem task).mpr (.inl hqueued)), if_pos hqueued, hstatus task hqueued]
        rfl
      · have hgone : task ∉ queue' := fun h => ((hmem task).mp h).elim hqueued heq
        rw [if_neg hgone, if_neg hqueued]
  exact ⟨resumed, queue', Added.of_frame hframe₁ (hplaced ▸ hframe₃) (hnone ▸ hwait₃) hstatus₄,
    (hready₂.register call.block id).of_frame hframe₃, max enough₁ (max enough₂ enough₃),
    fun fuel hle => heliosAddTask_eq (hpause fuel (by omega)) (hplace fuel (by omega)) hgen
      (hresume fuel (by omega))⟩

theorem BootInv.status_of_mem (hinv : BootInv calls state)
    (hready : ReadySorted state (calls.map AddCall.block) queue) {task : Addr}
    (htask : task ∈ queue) : state.status task = .ready := by
  obtain ⟨other, hother, rfl⟩ := List.mem_map.mp (hready.perm.mem_iff.mp htask)
  exact hinv.status other hother

theorem BootInv.notMem_of_unused (hinv : BootInv calls state)
    (hready : ReadySorted state (calls.map AddCall.block) queue) {block : Addr}
    (hunused : block ∉ state.heapBlocks) : block ∉ queue := by
  intro h
  obtain ⟨other, hother, rfl⟩ := List.mem_map.mp (hready.perm.mem_iff.mp h)
  exact hunused (hinv.blocks other hother)

/-- An accepted call on unused memory returns, and the boot invariant covers the new task. -/
theorem BootInv.add (cfg : HeliosConfig) (hinv : BootInv calls state)
    (hunused : call.block ∉ state.heapBlocks) :
    ∃ state', Added call ((calls.length + 1) % 2 ^ 16) state state' ∧
      BootInv (calls ++ [call]) state' ∧
      Returns (fun fuel => heliosAddTask cfg fuel 0 call.args call.memory state)
        (.success, (calls.length + 1) % 2 ^ 16, state') := by
  obtain ⟨queue, hready⟩ := hinv.ready
  obtain ⟨state', queue', hadded, hready', enough, hrun⟩ :=
    eventually_addTask cfg hready hinv.wait hinv.curr (fun _ => hinv.status_of_mem hready)
      (hinv.notMem_of_unused hready hunused)
  have hid : (state.taskIdGen + 1) % 2 ^ 16 = (calls.length + 1) % 2 ^ 16 := by
    rw [hinv.taskIdGen, Nat.mod_add_mod]
  rw [hid] at hadded hrun
  have hfresh : ∀ other ∈ calls, other.block ≠ call.block := fun other hother heq =>
    hunused (heq ▸ hinv.blocks other hother)
  refine ⟨state', hadded, ⟨⟨queue', ?_⟩, hadded.wait, ?_, ?_, ?_, ?_, ?_, ?_⟩,
    enough, hrun enough le_rfl⟩
  · rwa [List.map_append]
  · rw [hadded.currTask, hinv.curr]
  · intro other hother
    rw [hadded.status]
    rcases List.mem_append.mp hother with hother | hother
    · rw [Function.update_of_ne (hfresh other hother), hinv.status other hother]
    · rw [List.mem_singleton.mp hother, Function.update_self]
  · intro other hother
    rw [hadded.priority]
    rcases List.mem_append.mp hother with hother | hother
    · rw [Function.update_of_ne (hfresh other hother), hinv.priority other hother]
    · rw [List.mem_singleton.mp hother, Function.update_self]
  · have hsame : calls.map (fun other => state'.taskId other.block) =
        calls.map fun other => state.taskId other.block := by
      apply List.map_congr_left
      intro other hother
      rw [hadded.taskId, Function.update_of_ne (hfresh other hother)]
    rw [List.map_append, hsame, hinv.ids, List.length_append, List.length_singleton,
      List.range_succ, List.map_append, List.map_singleton, List.map_singleton,
      hadded.taskId, Function.update_self]
  · rw [hadded.taskIdGen, List.length_append, List.length_singleton]
  · intro other hother
    rw [hadded.heapBlocks]
    rcases List.mem_append.mp hother with hother | hother
    · exact List.mem_cons_of_mem _ (List.mem_cons_of_mem _ (hinv.blocks other hother))
    · simp [List.mem_singleton.mp hother]

end Add

/-! ## Runs before the kernel -/

section Runs

variable {cfg : HeliosConfig} {calls : List AddCall} {state : SchedState}

theorem bootInv_start (tcb : Addr → Tcb) (resource : ℕ → ℤ) (heapBlocks : List ℕ) :
    BootInv [] (bootState tcb resource heapBlocks) where
  ready := ⟨[], ⟨Links.ring_nil, rfl⟩, .nil, .nil, fun _ => rfl⟩
  wait := ⟨Links.ring_nil, rfl⟩
  curr := rfl
  status := by simp
  priority := by simp
  ids := rfl
  taskIdGen := rfl
  blocks := by simp

theorem bootInv_of_bootRun (hrun : BootRun cfg calls state) : BootInv calls state := by
  induction hrun with
  | start tcb resource heapBlocks => exact bootInv_start tcb resource heapBlocks
  | add hrun hunused hadd ih =>
      obtain ⟨after, -, hafter, hreturns⟩ := ih.add cfg hunused
      have heq := hreturns.unique (fuelMono_addTask _ _ _ _ _) hadd
      obtain rfl := congrArg (fun result => result.2.2) heq
      exact hafter

/-- Every task gets the arguments and the name that it was added with, once it is the current
one. -/
theorem heliosGetArgs_of_bootRun (hrun : BootRun cfg calls state) {call : AddCall}
    (hcall : call ∈ calls) :
    heliosGetArgs { state with currTask := some call.block } = .done call.args.args ∧
      heliosGetCurrTaskName { state with currTask := some call.block } = .done call.args.name := by
  have hgiven : ∀ call ∈ calls, state.given call.block = (call.args.args, call.args.name) := by
    clear hcall
    induction hrun with
    | start => exact fun _ h => absurd h List.not_mem_nil
    | @add calls before after added status handle hrun hunused hadd ih =>
        obtain ⟨after', hadded, -, hreturns⟩ := (bootInv_of_bootRun hrun).add cfg hunused
        have heq := hreturns.unique (fuelMono_addTask _ _ _ _ _) hadd
        obtain rfl := congrArg (fun result => result.2.2) heq
        intro other hother
        rw [hadded.given]
        rcases List.mem_append.mp hother with hother | hother
        · have hne : other.block ≠ added.block := fun h =>
            hunused (h ▸ (bootInv_of_bootRun hrun).blocks other hother)
          rw [Function.update_of_ne hne, ih other hother]
        · rw [List.mem_singleton.mp hother, Function.update_self]
  obtain ⟨hargs, hname⟩ := Prod.ext_iff.mp (hgiven call hcall)
  exact ⟨congrArg Outcome.done hargs, congrArg Outcome.done hname⟩

/-- After every sequence of accepted additions the ready list is the stable sort of the
added tasks by priority, all of them are ready, the wait list is empty, and the ids count
the additions modulo the width of the generator; and every further accepted call returns. -/
theorem bootTasks_of_bootRun (hrun : BootRun cfg calls state) :
    (∃ queue, ReadySorted state (calls.map AddCall.block) queue) ∧
      (∀ call ∈ calls, state.status call.block = .ready) ∧
      calls.map (fun call => state.taskId call.block) =
        ((List.range calls.length).map fun k => (k + 1) % 2 ^ 16) ∧
      state.waitListHead = none ∧
      ∀ call : AddCall, call.block ∉ state.heapBlocks →
        ∃ state', BootRun cfg (calls ++ [call]) state' := by
  have hinv := bootInv_of_bootRun hrun
  refine ⟨hinv.ready, hinv.status, hinv.ids, hinv.wait.head, fun call hunused => ?_⟩
  obtain ⟨state', -, -, hreturns⟩ := hinv.add cfg hunused
  exact ⟨state', hrun.add hunused hreturns⟩

/-- No call is given a block that an earlier one was given. -/
def FreshCalls (calls : List AddCall) : Prop :=
  calls.Pairwise fun earlier later =>
    later.block ≠ earlier.block ∧ later.block ≠ earlier.stack

/-- Any list of calls on fresh memory can be made. -/
theorem exists_bootRun (cfg : HeliosConfig) (hfresh : FreshCalls calls) :
    ∃ state, BootRun cfg calls state ∧
      ∀ block ∈ state.heapBlocks, ∃ call ∈ calls, block = call.block ∨ block = call.stack := by
  induction calls using List.reverseRecOn with
  | nil => exact ⟨_, .start (fun _ => Tcb.zero) (fun _ => 0) [], by simp [bootState]⟩
  | append_singleton calls call ih =>
      obtain ⟨hbefore, -, hcall⟩ := List.pairwise_append.mp hfresh
      obtain ⟨state, hrun, hheap⟩ := ih hbefore
      have hunused : call.block ∉ state.heapBlocks := by
        intro h
        obtain ⟨other, hother, heq⟩ := hheap _ h
        obtain ⟨hblock, hstack⟩ := hcall other hother call (List.mem_singleton_self call)
        exact heq.elim hblock hstack
      obtain ⟨state', hadded, -, hreturns⟩ := (bootInv_of_bootRun hrun).add cfg hunused
      refine ⟨state', hrun.add hunused hreturns, ?_⟩
      intro block hblock
      rw [hadded.heapBlocks] at hblock
      rcases List.mem_cons.mp hblock with rfl | hblock
      · exact ⟨call, by simp, .inr rfl⟩
      rcases List.mem_cons.mp hblock with rfl | hblock
      · exact ⟨call, by simp, .inl rfl⟩
      obtain ⟨other, hother, heq⟩ := hheap block hblock
      exact ⟨other, List.mem_append_left _ hother, heq⟩

/-- A call of the given priority, on zero-filled memory of its own. -/
def numberedCall (priority : ℕ)
    (hpriority : heliosIdleTaskPriority ≤ priority ∧ priority < heliosPriorityMax) (k : ℕ) :
    AddCall where
  args := ⟨some "task", 0x20000100, 0, priority, 64⟩
  block := 2 * k + 1
  contents := Tcb.zero
  stack := 2 * k + 2
  accepted := ⟨by simp, by simp, by simp, hpriority.1, hpriority.2⟩
  new := rfl
  stack_ne_zero := by simp

theorem bootTasks_two :
    ∃ state, BootRun (defaultConfig true)
        [numberedCall 7 (by decide) 0, numberedCall 3 (by decide) 1] state ∧
      (∃ queue, ReadySorted state [1, 3] queue) ∧ state.waitListHead = none := by
  obtain ⟨state, hrun, -⟩ := exists_bootRun (defaultConfig true)
    (show FreshCalls [numberedCall 7 (by decide) 0, numberedCall 3 (by decide) 1] by
      simp [FreshCalls, numberedCall])
  obtain ⟨hready, -, -, hwait, -⟩ := bootTasks_of_bootRun hrun
  exact ⟨state, hrun, hready, hwait⟩

/-- After 65536 additions the generator has gone round: the last task has the id zero. -/
theorem exists_bootRun_ids_wrapped :
    ∃ calls state, BootRun (defaultConfig true) calls state ∧
      calls.map (fun call => state.taskId call.block) ≠
        (List.range calls.length).map fun k => k + 1 := by
  have hfresh : FreshCalls ((List.range (2 ^ 16)).map (numberedCall 3 (by decide))) := by
    refine List.pairwise_map.mpr (List.pairwise_lt_range.imp fun {earlier later} hlt => ⟨?_, ?_⟩)
    · show 2 * later + 1 ≠ 2 * earlier + 1
      omega
    · show 2 * later + 1 ≠ 2 * earlier + 2
      omega
  obtain ⟨state, hrun, -⟩ := exists_bootRun (defaultConfig true) hfresh
  refine ⟨_, state, hrun, fun hclaim => ?_⟩
  rw [(bootInv_of_bootRun hrun).ids, List.length_map, List.length_range] at hclaim
  have hlast : 2 ^ 16 ∈ (List.range (2 ^ 16)).map fun k => k + 1 :=
    List.mem_map.mpr ⟨2 ^ 16 - 1, List.mem_range.mpr (by omega), by omega⟩
  rw [← hclaim] at hlast
  obtain ⟨k, -, hk⟩ := List.mem_map.mp hlast
  omega

end Runs

/-! ## The idle task -/

section Idle

variable {cfg : HeliosConfig} {calls : List AddCall} {idle : AddCall} {state : SchedState}

/-- `helios_run` puts the idle task into a list sorted like any other. -/
theorem returns_runInit (hinv : BootInv calls state) (hidle : idle.args = idleTaskArgs cfg)
    (hunused : idle.block ∉ state.heapBlocks) :
    ∃ state', BootInv (calls ++ [idle]) state' ∧ state'.selectedSched = state.selectedSched ∧
      Returns (fun fuel => heliosRunInit cfg fuel 0 idle.memory state)
        ((calls.length + 1) % 2 ^ 16, heliosInitScheduler state') := by
  obtain ⟨state', hadded, hinv', fuel, hadd⟩ := hinv.add cfg hunused
  rw [hidle] at hadd
  refine ⟨state', hinv', hadded.selectedSched, fuel, ?_⟩
  simp [heliosRunInit, hadd]

/-- The head of a sorted ready list is the task added last exactly when every other task
has a larger priority value. -/
theorem BootInv.readyListHead_iff (hinv : BootInv (calls ++ [idle]) state) :
    state.readyListHead = some idle.block ↔
      ∀ call ∈ calls, idle.args.priority < call.args.priority := by
  obtain ⟨queue, hready⟩ := hinv.ready
  have hhead : state.readyListHead = queue.head? := hready.list.head
  have hperm := hready.perm
  have hstable := hready.stable
  rw [List.map_append, List.map_singleton] at hperm hstable
  have hfresh : idle.block ∉ calls.map AddCall.block := by
    intro h
    have hnodup := hperm.nodup_iff.mp hready.list.ring.nodup
    exact List.disjoint_of_nodup_append hnodup h (List.mem_singleton_self _)
  rw [hhead, hready.sorted.head?_eq_last_iff hperm hfresh hstable,
    List.forall_mem_map, hinv.priority idle (by simp)]
  refine forall₂_congr fun call hcall => ?_
  rw [hinv.priority call (List.mem_append_left _ hcall)]

/-- `helios_run` leaves the idle task at the head of the ready list if and only if no task
added before it has the idle priority. -/
theorem idle_heads_readyList_iff (hrun : BootRun cfg calls state)
    (hidle : idle.args = idleTaskArgs cfg) (hunused : idle.block ∉ state.heapBlocks) :
    (∃ handle state', Returns (fun fuel => heliosRunInit cfg fuel 0 idle.memory state)
        (handle, state')) ∧
      ∀ handle state', Returns (fun fuel => heliosRunInit cfg fuel 0 idle.memory state)
          (handle, state') →
        (state'.readyListHead = some idle.block ↔
          ∀ call ∈ calls, call.args.priority ≠ heliosIdleTaskPriority) := by
  obtain ⟨after, hafter, -, hreturns⟩ :=
    returns_runInit (bootInv_of_bootRun hrun) hidle hunused
  refine ⟨⟨_, _, hreturns⟩, fun handle state' hreturns' => ?_⟩
  have heq := hreturns.unique (fuelMono_runInit _ _ _ _) hreturns'
  obtain rfl := congrArg Prod.snd heq
  have hhead : (heliosInitScheduler after).readyListHead = after.readyListHead := rfl
  rw [hhead, hafter.readyListHead_iff, hidle]
  refine forall₂_congr fun call hcall => ?_
  have hle := call.accepted.idle_le_priority
  simp only [idleTaskArgs]
  omega

/-- The call that `helios_run` makes, on zero-filled memory of its own. -/
def idleCall (cfg : HeliosConfig) (k : ℕ) : AddCall where
  args := idleTaskArgs cfg
  block := 2 * k + 1
  contents := Tcb.zero
  stack := 2 * k + 2
  accepted := ⟨by simp [idleTaskArgs], cfg.idleTaskFn_ne_zero, cfg.idleTaskStackLen_ne_zero,
    le_rfl, show heliosIdleTaskPriority < heliosPriorityMax by decide⟩
  new := rfl
  stack_ne_zero := by simp

theorem idle_heads_readyList_of_two :
    ∃ state handle state',
      BootRun (defaultConfig true)
        [numberedCall 7 (by decide) 0, numberedCall 3 (by decide) 1] state ∧
      Returns (fun fuel => heliosRunInit (defaultConfig true) fuel 0
        (idleCall (defaultConfig true) 2).memory state) (handle, state') ∧
      state'.readyListHead = some 5 := by
  obtain ⟨state, hrun, hheap⟩ := exists_bootRun (defaultConfig true)
    (show FreshCalls [numberedCall 7 (by decide) 0, numberedCall 3 (by decide) 1] by
      simp [FreshCalls, numberedCall])
  have hunused : (idleCall (defaultConfig true) 2).block ∉ state.heapBlocks := by
    intro h
    simpa [numberedCall, idleCall] using hheap _ h
  obtain ⟨⟨handle, state', hreturns⟩, hiff⟩ := idle_heads_readyList_iff hrun rfl hunused
  exact ⟨state, handle, state', hrun, hreturns,
    (hiff handle state' hreturns).mpr (by simp [numberedCall, heliosIdleTaskPriority])⟩

/-- A task of the idle priority keeps the head of the list. -/
theorem exists_idle_not_heading_readyList :
    ∃ state handle state',
      BootRun (defaultConfig true) [numberedCall 1 (by decide) 0] state ∧
      (idleCall (defaultConfig true) 1).block ∉ state.heapBlocks ∧
      Returns (fun fuel => heliosRunInit (defaultConfig true) fuel 0
        (idleCall (defaultConfig true) 1).memory state) (handle, state') ∧
      state'.readyListHead ≠ some (idleCall (defaultConfig true) 1).block := by
  obtain ⟨state, hrun, hheap⟩ := exists_bootRun (defaultConfig true)
    (show FreshCalls [numberedCall 1 (by decide) 0] by simp [FreshCalls])
  have hunused : (idleCall (defaultConfig true) 1).block ∉ state.heapBlocks := by
    intro h
    simpa [numberedCall, idleCall] using hheap _ h
  obtain ⟨after, hafter, -, hreturns⟩ := returns_runInit (bootInv_of_bootRun hrun)
    (show (idleCall (defaultConfig true) 1).args = _ from rfl) hunused
  refine ⟨state, _, _, hrun, hunused, hreturns, fun hhead => ?_⟩
  have hlarger := hafter.readyListHead_iff.mp hhead
  simp [numberedCall, idleCall, idleTaskArgs, heliosIdleTaskPriority] at hlarger

end Idle

end Cyancore.Helios
