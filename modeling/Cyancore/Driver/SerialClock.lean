/-
# The speed of the serial ports follows the clock

A serial driver of the FE310 divides the core clock down to its speed, and puts a node of its own on
the list of clock callbacks so that it can set its divisor anew.  The clock driver and the list of
callbacks know nothing of the serial ports.  That every port on the list keeps its speed, whatever
is requested of the clock, is a property of the three together.

`sysclk_reset` and `sysclk_disable` notify no one, so the runs are those of `sysclk_set_clk`.
-/

import Cyancore.Driver.ClockReadback
import Cyancore.Driver.ClkRegistry
import Cyancore.Math.Registers

namespace Cyancore.Driver

open Cyancore.Math Cyancore.Sysclk StatusCode

/-! ## Serial ports -/

/-- `uart_port_t`, as far as its speed goes; the device properties give a port a speed. -/
structure UartPort where
  baddr : ℕ
  baud : ℕ
  baud_pos : 0 < baud
  deriving DecidableEq, Repr

/-- `UARTBR_OFFSET`. -/
def uartbrOffset : ℕ := 0x18

/-- `BAUD_DIV`. -/
def baudDiv (f x : ℕ) : BitVec 32 := BitVec.ofNat 32 (f / x) - 1

/-- The clock, and the registers of the serial ports. -/
structure SerialBoard where
  clock : ClockState
  mmio : Registers 32

/-- The frequency that `sysclk_get_clk` stores; what the locals hold before does not matter. -/
def ClockState.getClk (clock : ClockState) : ℕ :=
  match (sysclkGetClk 0 0 clock).outcome with
  | .done ((_, clk), _) => clk
  | _ => 0

/-- `uart_update_baud`. -/
def uartUpdateBaud (port : UartPort) (board : SerialBoard) : SerialBoard :=
  { board with
    mmio := Function.update board.mmio (port.baddr + uartbrOffset)
      (baudDiv board.clock.getClk port.baud &&& 0xffff) }

/-- `console_serial_pre_clk_config`, and the same of the early console. -/
def consoleSerialPreClkConfig (board : SerialBoard) : StatusCode × SerialBoard :=
  (success, board)

/-- `console_serial_post_clk_config`, and the same of the early console. -/
def consoleSerialPostClkConfig (port : UartPort) (board : SerialBoard) :
    StatusCode × SerialBoard :=
  (success, uartUpdateBaud port board)

/-- `sysclk_set_clk`: `sysclk_configure_clk` between its two passes over the list. -/
def sysclkSetClk (fuel type clk : ℕ) (lockClears : Bool) (state : SysclkState SerialBoard) :
    Outcome (Fault ⊕ ClockFault) (StatusCode × SysclkState SerialBoard) :=
  match state.world.clock.port? with
  | none => .done (errorInvalPointer, state)
  | some _ => do
      let (before, state) ← (sysclkExecutePreConfigClkCallback fuel state).mapFault .inl
      let configure := sysclkConfigureClk type clk lockClears before success
      let (status, clock) ← (configure state.world.clock).outcome.mapFault .inr
      let state := { state with world := { state.world with clock := clock } }
      let (after, state) ← (sysclkExecutePostConfigClkCallback fuel state).mapFault .inl
      return (status ||| after, state)

/-! ## One pass over the list -/

section Pass

variable {ω : Type} {state : SysclkState ω} {nodes : List Addr} {effect : Addr → ω → ω}
  {visit : Addr → StatusCode × SysclkState ω → Run (StatusCode × SysclkState ω)}

/-- A visit to a node has this effect on the rest of the system, and none on the list. -/
def Affects (effect : Addr → ω → ω) (mem : Addr → ConfigClkCallback ω) (nodes : List Addr)
    (visit : Addr → StatusCode × SysclkState ω → Run (StatusCode × SysclkState ω)) : Prop :=
  ∀ temp ∈ nodes, ∀ ret state ret' state', state.mem = mem →
    visit temp (ret, state) = .done (ret', state') →
      state'.mem = mem ∧ state'.root = state.root ∧ state'.world = effect temp state.world

/-- In front of `rest` the pass has had the effects of the nodes before. -/
structure Passing (effect : Addr → ω → ω) (state : SysclkState ω) (nodes : List Addr)
    (temp : Option Addr) (state' : SysclkState ω) : Prop where
  mem : state'.mem = state.mem
  root : state'.root = state.root
  world : ∃ before rest, nodes = before ++ rest ∧ Linked state.next temp rest none ∧
    state'.world = before.foldl (fun world node => effect node world) state.world

/-- A turn visits the node it stands at, and goes on to the next. -/
theorem Passing.turn (haffects : Affects effect state.mem nodes visit) {temp : Option Addr}
    {ret : StatusCode} {state' : SysclkState ω}
    {turn : Turn (Option Addr × StatusCode × SysclkState ω) (StatusCode × SysclkState ω)}
    (hpassing : Passing effect state nodes temp state')
    (hturn : executeTurn visit (temp, ret, state') = .done turn) :
    ∃ temp' ret' state'', Passing effect state nodes temp' state'' ∧
      turn = match temp' with
        | none => .exit (ret', state'')
        | some succ => .next (some succ, ret', state'') := by
  obtain ⟨hmem, hroot, before, rest, rfl, hlinked, hworld⟩ := hpassing
  cases temp with
  | none => cases hturn
  | some temp =>
      cases rest with
      | nil => cases hlinked
      | cons node rest =>
          obtain ⟨hnode, hrest⟩ := hlinked
          cases hnode
          obtain ⟨⟨ret', state''⟩, hvisit, hnext⟩ := Outcome.bind_eq_done_iff.mp hturn
          obtain ⟨hmem', hroot', hworld'⟩ :=
            haffects temp (by simp) ret state' ret' state'' hmem hvisit
          have hsame : state''.next temp = state.next temp := by
            rw [SysclkState.next, hmem', SysclkState.next]
          refine ⟨state''.next temp, ret', state'', ⟨hmem', hroot'.trans hroot, ?_⟩, ?_⟩
          · refine ⟨before ++ [temp], rest, by simp, hsame ▸ hrest, ?_⟩
            rw [hworld', hworld, List.foldl_append]
            rfl
          · cases hsucc : state''.next temp with
            | none =>
                simp only [hsucc] at hnext
                exact (Outcome.done.inj hnext).symm
            | some succ =>
                simp only [hsucc] at hnext
                exact (Outcome.done.inj hnext).symm

/-- The effects of a pass are those of the visits, in the order of the list. -/
theorem world_of_execute (haffects : Affects effect state.mem nodes visit)
    (hlist : state.ListIs nodes) {fuel : ℕ} {ret : StatusCode} {state' : SysclkState ω}
    (hpass : executeConfigClkCallback visit fuel state = .done (ret, state')) :
    state'.mem = state.mem ∧ state'.root = state.root ∧
      state'.world = nodes.foldl (fun world node => effect node world) state.world := by
  have hend : Passing effect state nodes none state' := by
    refine @loop_invariant _ _ _ (executeTurn visit)
      (fun frame => Passing effect state nodes frame.1 frame.2.2)
      (fun result => Passing effect state nodes none result.2) ?_ ?_ _ ?_ _ _ hpass
    · rintro ⟨temp, ret, frame⟩ next hpassing hturn
      obtain ⟨temp', ret', frame', hpassing', hnext⟩ := hpassing.turn haffects hturn
      cases temp' with
      | none => cases hnext
      | some succ =>
          cases hnext
          exact hpassing'
    · rintro ⟨temp, ret, frame⟩ result hpassing hturn
      obtain ⟨temp', ret', frame', hpassing', hnext⟩ := hpassing.turn haffects hturn
      cases temp' with
      | none =>
          cases hnext
          exact hpassing'
      | some succ => cases hnext
    · exact ⟨rfl, rfl, [], nodes, rfl, hlist, rfl⟩
  obtain ⟨before, rest, hnodes, hlinked, hworld⟩ := hend.world
  cases rest with
  | nil => exact ⟨hend.mem, hend.root, by rw [hworld, hnodes, List.append_nil]⟩
  | cons node rest => cases hlinked.1

end Pass

/-! ## The serial ports of the list -/

variable {ports : Addr → UartPort} {nodes : List Addr} {board : SerialBoard}

/-- The divisor of the port suits the clock. -/
def Tuned (port : UartPort) (board : SerialBoard) : Prop :=
  board.mmio (port.baddr + uartbrOffset) = baudDiv board.clock.getClk port.baud &&& 0xffff

@[simp]
theorem clock_uartUpdateBaud (port : UartPort) : (uartUpdateBaud port board).clock = board.clock :=
  rfl

/-- The second call of a node stores what the first has stored. -/
theorem uartUpdateBaud_idem (port : UartPort) :
    uartUpdateBaud port (uartUpdateBaud port board) = uartUpdateBaud port board := by
  simp [uartUpdateBaud]

theorem tuned_uartUpdateBaud (port : UartPort) : Tuned port (uartUpdateBaud port board) := by
  simp [Tuned, uartUpdateBaud]

/-- Another port has registers of its own, or the same speed. -/
theorem Tuned.uartUpdateBaud {port port' : UartPort} (htuned : Tuned port board)
    (hports : port.baddr = port'.baddr → port.baud = port'.baud) :
    Tuned port (uartUpdateBaud port' board) := by
  by_cases hbase : port.baddr = port'.baddr
  · simp [Tuned, Driver.uartUpdateBaud, hbase, hports hbase]
  · have hne : port.baddr + uartbrOffset ≠ port'.baddr + uartbrOffset :=
      fun h => hbase (Nat.add_right_cancel h)
    simpa [Tuned, Driver.uartUpdateBaud, Function.update_of_ne hne] using htuned

/-- Ports that share their registers have the same speed. -/
def Agree (ports : Addr → UartPort) (nodes : List Addr) : Prop :=
  ∀ node ∈ nodes, ∀ other ∈ nodes, (ports node).baddr = (ports other).baddr →
    (ports node).baud = (ports other).baud

/-- After a pass every port is tuned. -/
theorem tuned_foldl (hagree : Agree ports nodes) (board : SerialBoard) :
    ∀ node ∈ nodes, Tuned (ports node)
      (nodes.foldl (fun board node => uartUpdateBaud (ports node) board) board) := by
  induction nodes generalizing board with
  | nil => nofun
  | cons first rest ih =>
      intro node hnode
      rw [List.foldl_cons]
      cases hnode with
      | head =>
          refine List.foldlRecOn rest _ (tuned_uartUpdateBaud (ports first)) ?_
          intro board htuned other hother
          exact htuned.uartUpdateBaud
            (hagree first List.mem_cons_self other (List.mem_cons_of_mem first hother))
      | tail _ hnode =>
          refine ih (fun node hnode other hother => ?_) _ node hnode
          exact hagree node (List.mem_cons_of_mem first hnode) other
            (List.mem_cons_of_mem first hother)

/-- The clock is left as it was. -/
theorem clock_foldl (board : SerialBoard) :
    (nodes.foldl (fun board node => uartUpdateBaud (ports node) board) board).clock =
      board.clock := by
  induction nodes generalizing board with
  | nil => rfl
  | cons node nodes ih => rw [List.foldl_cons, ih, clock_uartUpdateBaud]

/-- The nodes of the list are those of serial ports. -/
structure SerialList (ports : Addr → UartPort) (nodes : List Addr)
    (state : SysclkState SerialBoard) : Prop where
  list : state.ListIs nodes
  preConfig : ∀ node ∈ nodes, (state.mem node).preConfig = some consoleSerialPreClkConfig
  postConfig : ∀ node ∈ nodes,
    (state.mem node).postConfig = some (consoleSerialPostClkConfig (ports node))

namespace SerialList

variable {state state' : SysclkState SerialBoard} {fuel : ℕ} {ret : StatusCode}

theorem congr (hlist : SerialList ports nodes state) (hmem : state'.mem = state.mem)
    (hroot : state'.root = state.root) : SerialList ports nodes state' := by
  have hnext : state'.next = state.next := by
    funext node
    rw [SysclkState.next, hmem, SysclkState.next]
  constructor
  · rw [SysclkState.ListIs, hnext, hroot]
    exact hlist.list
  · rw [hmem]
    exact hlist.preConfig
  · rw [hmem]
    exact hlist.postConfig

/-- The pass before the change does nothing to the board. -/
theorem world_pre (hlist : SerialList ports nodes state)
    (hpass : sysclkExecutePreConfigClkCallback fuel state = .done (ret, state')) :
    SerialList ports nodes state' ∧ state'.world = state.world := by
  have haffects : Affects (fun _ board => board) state.mem nodes visitPre := by
    intro temp htemp ret before ret' after hmem hvisit
    have hcallback : (before.mem temp).callback .preConfig = some consoleSerialPreClkConfig := by
      rw [hmem]
      exact hlist.preConfig temp htemp
    rw [visitPre, guardedCall, hcallback] at hvisit
    cases hvisit
    exact ⟨hmem, rfl, rfl⟩
  obtain ⟨hmem, hroot, hworld⟩ := world_of_execute haffects hlist.list hpass
  exact ⟨hlist.congr hmem hroot, hworld.trans (List.foldl_fixed nodes)⟩

/-- The pass after it sets the divisors. -/
theorem world_post (hlist : SerialList ports nodes state)
    (hpass : sysclkExecutePostConfigClkCallback fuel state = .done (ret, state')) :
    SerialList ports nodes state' ∧ state'.world =
      nodes.foldl (fun board node => uartUpdateBaud (ports node) board) state.world := by
  have haffects : Affects (fun node => uartUpdateBaud (ports node)) state.mem nodes visitPost := by
    intro temp htemp ret before ret' after hmem hvisit
    have hcallback : (before.mem temp).callback .postConfig =
        some (consoleSerialPostClkConfig (ports temp)) := by
      rw [hmem]
      exact hlist.postConfig temp htemp
    simp only [visitPost, unguardedCall, hcallback, Outcome.done_bind, guardedCall, invoke,
      consoleSerialPostClkConfig] at hvisit
    cases hvisit
    exact ⟨hmem, rfl, uartUpdateBaud_idem (ports temp)⟩
  obtain ⟨hmem, hroot, hworld⟩ := world_of_execute haffects hlist.list hpass
  exact ⟨hlist.congr hmem hroot, hworld⟩

end SerialList

/-! ## Runs -/

/-- A call of `sysclk_set_clk`, and whether the PLL locks. -/
structure SetClkCall where
  type : ℕ
  clk : ℕ
  lockClears : Bool
  deriving DecidableEq, Repr

/-- The request that the call comes to. -/
def SetClkCall.request (call : SetClkCall) : ClockRequest :=
  .config call.type call.clk call.lockClears success success

/-- The whole system, and what was requested of the clock last. -/
structure BaudRun where
  state : SysclkState SerialBoard
  last : ClockSetting

/-- The system as it should be: the clock as it was requested, and every port in tune. -/
structure BaudRun.Sound (base : ℕ) (ports : Addr → UartPort) (nodes : List Addr)
    (run : BaudRun) : Prop where
  serial : SerialList ports nodes run.state
  clock : RateRun.Sound base ⟨run.state.world.clock, run.last⟩
  tuned : ∀ node ∈ nodes, Tuned (ports node) run.state.world

/-- Runs of `sysclk_set_clk`; a call that does not return ends the run. -/
def baudSystem (base : ℕ) (ports : Addr → UartPort) (nodes : List Addr) :
    TransitionSystem BaudRun SetClkCall where
  init := BaudRun.Sound base ports nodes
  step call run run' := ∃ fuel status,
    sysclkSetClk fuel call.type call.clk call.lockClears run.state = .done (status, run'.state) ∧
      run'.last = if run.state.world.clock.port?.isSome then run.last.after call.request
        else run.last

variable {base : ℕ} {run run' : BaudRun} {call : SetClkCall}

theorem BaudRun.Sound.step (hagree : Agree ports nodes) (hsound : run.Sound base ports nodes)
    (hstep : (baudSystem base ports nodes).step call run run') :
    run'.Sound base ports nodes := by
  obtain ⟨state', last'⟩ := run'
  obtain ⟨fuel, status, hcall, hlast⟩ := hstep
  simp only at hcall hlast
  unfold sysclkSetClk at hcall
  cases hport : run.state.world.clock.port? with
  | none =>
      simp only [hport] at hcall hlast
      cases hcall
      simp at hlast
      subst hlast
      exact hsound
  | some port =>
      simp only [hport] at hcall hlast
      obtain ⟨⟨before, middle⟩, hpre, hcall⟩ := Outcome.bind_eq_done_iff.mp hcall
      obtain ⟨⟨answer, clock⟩, hconfigure, hcall⟩ := Outcome.bind_eq_done_iff.mp hcall
      obtain ⟨⟨after, last⟩, hpost, hcall⟩ := Outcome.bind_eq_done_iff.mp hcall
      cases hcall
      rw [Outcome.mapFault_eq_done_iff] at hpre hconfigure hpost
      obtain ⟨hserial, hworld⟩ := hsound.serial.world_pre hpre
      have hset : SerialList ports nodes { middle with world := { middle.world with clock } } :=
        hserial.congr rfl rfl
      obtain ⟨hserial', hworld'⟩ := hset.world_post hpost
      have hclock : last.world.clock = clock := by rw [hworld', clock_foldl]
      rw [hworld] at hconfigure
      have hsettings := sets_sysclkConfigureClk _ _ _ _ _ _ _ _ hconfigure
      have hbase := hsound.clock.crystal port hport
      constructor
      · exact hserial'
      · rw [hclock, hlast]
        constructor
        · rw [hsettings]
          refine describes_after hsound.clock.describes hport hbase ?_
          intro a0 a1 lockClears before' after' hrequest htype
          cases hrequest
          exact range_of_configure hport htype hconfigure
        · rw [hsettings]
          exact sameCrystal_serve hsound.clock.crystal nofun
      · rw [hworld']
        exact tuned_foldl hagree _

/-- A quotient that fits the field is stored less one. -/
theorem toNat_baudDiv {f x : ℕ} (hleast : 1 ≤ f / x) (hmost : f / x ≤ 65536) :
    (baudDiv f x &&& 0xffff).toNat + 1 = f / x := by
  have hmask (word : ℕ) : word &&& 65535 = word % 65536 := Nat.and_two_pow_sub_one_eq_mod word 16
  simp only [baudDiv, BitVec.toNat_and, BitVec.toNat_sub, BitVec.toNat_ofNat, BitVec.ofNat_eq_ofNat,
    Nat.reducePow, Nat.reduceMod, hmask]
  generalize f / x = quotient at *
  omega

/-- With a divisor that fits its field, the port is no slower than its speed, and would be with the
next divisor. -/
theorem Tuned.speed {port : UartPort} (htuned : Tuned port board) {clk : ℕ}
    (hclk : board.clock.getClk = clk) (hleast : port.baud ≤ clk)
    (hmost : clk / port.baud ≤ 65536) :
    ((board.mmio (port.baddr + uartbrOffset)).toNat + 1) * port.baud ≤ clk ∧
      clk < ((board.mmio (port.baddr + uartbrOffset)).toNat + 2) * port.baud := by
  have hone : 1 ≤ clk / port.baud := (Nat.le_div_iff_mul_le port.baud_pos).mpr (by omega)
  have hdivisor := toNat_baudDiv hone hmost
  rw [← hclk, ← htuned, hclk] at hdivisor
  rw [show ∀ n, n + 2 = n + 1 + 1 from fun _ => rfl, hdivisor]
  exact ⟨Nat.div_mul_le_self clk port.baud,
    (Nat.div_lt_iff_lt_mul port.baud_pos).mp (Nat.lt_succ_self _)⟩

/-- Whatever is requested of the clock, one call after the other, the frequency that is read back is
right for the last request, and every serial port on the list of callbacks is in tune with it. -/
theorem console_baud_follows_clock (hagree : Agree ports nodes)
    {guard : SetClkCall → BaudRun → Prop}
    (hreach : (baudSystem base ports nodes).Reachable guard run)
    (hport : run.state.world.clock.port? ≠ none) :
    ∃ status clk, (sysclkGetClk 0 0 run.state.world.clock).outcome =
        .done ((status, clk), run.state.world.clock) ∧
      run.last.IsAnswer base (status, clk) ∧
      ∀ node ∈ nodes, (ports node).baud ≤ clk → clk / (ports node).baud ≤ 65536 →
        let divisor := (run.state.world.mmio ((ports node).baddr + uartbrOffset)).toNat
        (divisor + 1) * (ports node).baud ≤ clk ∧ clk < (divisor + 2) * (ports node).baud := by
  have hsound : run.Sound base ports nodes :=
    hreach.invariant (BaudRun.Sound base ports nodes) (fun _ hinit => hinit)
      fun _ _ _ hsound _ hstep => hsound.step hagree hstep
  obtain ⟨port, hport⟩ := Option.ne_none_iff_exists'.mp hport
  have hget := outcome_sysclkGetClk 0 0 run.state.world.clock
  refine ⟨_, _, hget, isAnswer_report hsound.clock.describes hport
    (hsound.clock.crystal port hport), fun node hnode hleast hmost => ?_⟩
  apply (hsound.tuned node hnode).speed _ hleast hmost
  rw [ClockState.getClk, hget]
  rfl

/-- Both consoles are served by one port at 115200 baud. -/
def consolePort : UartPort := ⟨0x10013000, 115200, by decide⟩

/-- The list of one console, on a board that runs from the undivided oscillator. -/
def consoleRun : BaudRun where
  state :=
    { mem := fun _ =>
        ⟨some consoleSerialPreClkConfig, some (consoleSerialPostClkConfig consolePort), none⟩
      root := some 1
      world := uartUpdateBaud consolePort ⟨resetClock, fun _ => 0⟩
      calls := [] }
  last := .internal 72000000

theorem sound_consoleRun : consoleRun.Sound 16000000 (fun _ => consolePort) [1] where
  serial := ⟨⟨rfl, rfl⟩, fun _ _ => rfl, fun _ _ => rfl⟩
  clock := by
    constructor
    · exact ⟨rfl, by decide⟩
    · intro port hport
      cases hport
      rfl
  tuned _ _ := tuned_uartUpdateBaud consolePort

/-- A call that has returned and left the port. -/
def leavesPort : Outcome (Fault ⊕ ClockFault) (StatusCode × SysclkState SerialBoard) → Bool
  | .done (_, state) => state.world.clock.port?.isSome
  | _ => false

/-- The request returns, and leaves the port. -/
theorem setClk_consoleRun : ∃ status state,
    sysclkSetClk 2 0 16000000 true consoleRun.state = .done (status, state) ∧
      state.world.clock.port? ≠ none := by
  have hreturns : leavesPort (sysclkSetClk 2 0 16000000 true consoleRun.state) = true := by
    decide +kernel
  cases hcall : sysclkSetClk 2 0 16000000 true consoleRun.state with
  | done result =>
      rw [hcall] at hreturns
      exact ⟨result.1, result.2, rfl, Option.isSome_iff_ne_none.mp hreturns⟩
  | fault error => simp [hcall, leavesPort] at hreturns
  | spin => simp [hcall, leavesPort] at hreturns

/-- 16 MHz of the oscillator are requested, and the divisor is that of 18 MHz. -/
theorem console_baud_follows_clock_one : ∃ run : BaudRun, run.last = .internal 16000000 ∧
    ((run.state.world.mmio (consolePort.baddr + uartbrOffset)).toNat + 1) * 115200 ≤ 18000000 := by
  obtain ⟨status, state, hcall, hport⟩ := setClk_consoleRun
  have hlast : (ClockSetting.internal 16000000) =
      if consoleRun.state.world.clock.port?.isSome then
        consoleRun.last.after (SetClkCall.request ⟨0, 16000000, true⟩)
      else consoleRun.last := by decide
  have hreach : (baudSystem 16000000 (fun _ => consolePort) [1]).Reachable (fun _ _ => True)
      ⟨state, .internal 16000000⟩ :=
    .step (.start sound_consoleRun) trivial ⟨2, status, hcall, hlast⟩
  obtain ⟨answer, clk, -, hanswer, hspeed⟩ :=
    console_baud_follows_clock (fun _ _ _ _ _ => rfl) hreach hport
  obtain ⟨⟨hleast, -⟩, hmost⟩ := hanswer.2 (by decide)
  have hclk : clk ≤ 18000000 := hmost ⟨by decide, 3, by decide, by decide⟩
  have hbaud : consolePort.baud ≤ clk := le_trans (show 115200 ≤ 16000000 by decide) hleast
  have hquotient : clk / consolePort.baud ≤ 65536 := by
    simp only [consolePort]
    omega
  obtain ⟨hslow, -⟩ := hspeed 1 (List.mem_singleton_self 1) hbaud hquotient
  exact ⟨⟨state, .internal 16000000⟩, rfl, hslow.trans hclk⟩

end Cyancore.Driver
