/-
# The control registers of the megaAVR timers

`timer_setup` and `timer_shutdown` read the two control registers of a timer, set the bits
of the requested mode and prescaler in them and write them back.  No request clears a
bit, and a shutdown requests mode 0 and prescaler 0.
-/

import Cyancore.Basic
import Cyancore.Math.Bits
import Mathlib.Data.List.Basic
import Mathlib.Data.List.Induction
import Mathlib.Tactic.IntervalCases

namespace Cyancore.Driver

open Cyancore.Math

/-- The two layouts of timer registers. -/
inductive TimerWidth
  | eight
  | sixteen
  deriving DecidableEq, Repr

/-- What the driver reads of a `timer_port_t`. -/
structure TimerPort where
  portId : BitVec 16
  value : BitVec 16
  /-- `tmr_handler` is not NULL. -/
  tmrHandler : Bool
  deriving DecidableEq, Repr

namespace TimerPort

/-- `port->port_id & 0xf0`. -/
def id (port : TimerPort) : BitVec 16 := port.portId &&& 0xf0

/-- `port->port_id & 0xf`. -/
def unit (port : TimerPort) : ℕ := (port.portId &&& 0xf).toNat

/-- Timers 0 and 2 have eight bits. -/
def width (port : TimerPort) : TimerWidth :=
  if port.id = 0 ∨ port.id = 0x20 then .eight else .sixteen

end TimerPort

/-- The registers of a timer.  The counter and the compare registers of an 8-bit timer are
the low halves. -/
structure TimerRegs where
  tccra : BitVec 8
  tccrb : BitVec 8
  tcnt : BitVec 16
  ocra : BitVec 16
  ocrb : BitVec 16
  timsk : BitVec 8
  deriving DecidableEq, Repr

namespace TimerRegs

/-- After a reset. -/
def cleared : TimerRegs := ⟨0, 0, 0, 0, 0, 0⟩

/-- The modes up to `limit` have two bits in TCCRA and those under `high` in TCCRB. -/
def configMode (limit : ℕ) (high mode : BitVec 16) (regs : TimerRegs) : TimerRegs :=
  if mode.toNat ≤ limit then
    { regs with
      tccra := regs.tccra ||| (mode &&& 3).setWidth 8
      tccrb := regs.tccrb ||| ((mode &&& high) <<< 1).setWidth 8 }
  else regs

/-- `timer8_config_mode`. -/
def timer8ConfigMode : BitVec 16 → TimerRegs → TimerRegs := configMode 7 4

/-- `timer16_config_mode`. -/
def timer16ConfigMode : BitVec 16 → TimerRegs → TimerRegs := configMode 15 12

/-- The prescaler has the low bits of TCCRB. -/
def orPs (ps : BitVec 16) (regs : TimerRegs) : TimerRegs :=
  if ps.toNat ≤ 7 then { regs with tccrb := regs.tccrb ||| ps.setWidth 8 } else regs

/-- `timer8_config_ps`, which also restarts the counter. -/
def timer8ConfigPs (ps : BitVec 16) (regs : TimerRegs) : TimerRegs :=
  { regs.orPs ps with tcnt := 0 }

/-- `timer16_config_ps`. -/
def timer16ConfigPs (ps : BitVec 16) (regs : TimerRegs) : TimerRegs := regs.orPs ps

/-- The compare register of the unit; other units have none. -/
def set (unit : ℕ) (value : BitVec 16) (regs : TimerRegs) : TimerRegs :=
  if unit = 0 then { regs with ocra := value }
  else if unit = 1 then { regs with ocrb := value }
  else regs

/-- `timer8_set`. -/
def timer8Set (port : TimerPort) : TimerRegs → TimerRegs :=
  set port.unit ((port.value.setWidth 8).setWidth 16)

/-- `timer16_set`. -/
def timer16Set (port : TimerPort) : TimerRegs → TimerRegs := set port.unit port.value

/-- `timer8_irq_en` and `timer16_irq_en`. -/
def irqEn (port : TimerPort) (regs : TimerRegs) : TimerRegs :=
  { regs with timsk := setBit regs.timsk (port.unit + 1) }

/-- `timer8_irq_dis` and `timer16_irq_dis`. -/
def irqDis (port : TimerPort) (regs : TimerRegs) : TimerRegs :=
  { regs with timsk := clearBit regs.timsk (port.unit + 1) }

end TimerRegs

open TimerRegs in
/-- `timer_setup`, where `platform_clk_en` and `link_interrupt` return the given statuses. -/
def timerSetup (clkEn linked : StatusCode) (port : Option TimerPort) (mode ps : BitVec 16)
    (regs : TimerRegs) : StatusCode × TimerRegs :=
  match port with
  | none => (StatusCode.errorInvalPointer, regs)
  | some port =>
      let status := if port.tmrHandler then clkEn ||| linked else clkEn
      match port.width with
      | .eight =>
          let regs := if port.tmrHandler then irqEn port (timer8Set port regs) else regs
          (status, timer8ConfigPs ps (timer8ConfigMode mode regs))
      | .sixteen =>
          let regs := if port.tmrHandler then irqEn port (timer16Set port regs) else regs
          (status, timer16ConfigPs ps (timer16ConfigMode mode regs))

open TimerRegs in
/-- `timer_shutdown`, where `unlink_interrupt` and `platform_clk_dis` return the given
statuses. -/
def timerShutdown (unlinked clkDis : StatusCode) (port : Option TimerPort) (regs : TimerRegs) :
    StatusCode × TimerRegs :=
  match port with
  | none => (StatusCode.errorInvalPointer, regs)
  | some port =>
      let status := StatusCode.orAll [unlinked, clkDis]
      match port.width with
      | .eight => (status, irqDis port (timer8ConfigPs 0 (timer8ConfigMode 0 regs)))
      | .sixteen => (status, irqDis port (timer16ConfigPs 0 (timer16ConfigMode 0 regs)))

/-! ## What the registers say -/

namespace TimerWidth

/-- The largest mode. -/
def maxMode : TimerWidth → ℕ
  | .eight => 7
  | .sixteen => 15

/-- The bits of a mode that are kept in TCCRB. -/
def highMode : TimerWidth → BitVec 16
  | .eight => 4
  | .sixteen => 12

end TimerWidth

namespace TimerRegs

/-- The waveform mode that the registers select. -/
def mode (width : TimerWidth) (regs : TimerRegs) : BitVec 16 :=
  (regs.tccra.setWidth 16 &&& 3) ||| ((regs.tccrb.setWidth 16 >>> 1) &&& width.highMode)

/-- The clock that the registers select; 0 stops the timer. -/
def clockSelect (regs : TimerRegs) : BitVec 16 := regs.tccrb.setWidth 16 &&& 7

/-- A mode is added to the mode that was selected. -/
theorem mode_timer8ConfigMode {mode : BitVec 16} (hmode : mode.toNat ≤ 7) (regs : TimerRegs) :
    (timer8ConfigMode mode regs).mode .eight = regs.mode .eight ||| mode := by
  have hhigh {i : ℕ} (hi : i < 16) (hn : 3 ≤ i) : mode[i] = false :=
    getElem_eq_false_of_lt (n := 3) (by omega) hi hn
  rw [timer8ConfigMode, configMode, if_pos hmode]
  ext i hi
  interval_cases i <;> simp [TimerRegs.mode, TimerWidth.highMode, hhigh]

theorem mode_timer16ConfigMode {mode : BitVec 16} (hmode : mode.toNat ≤ 15) (regs : TimerRegs) :
    (timer16ConfigMode mode regs).mode .sixteen = regs.mode .sixteen ||| mode := by
  have hhigh {i : ℕ} (hi : i < 16) (hn : 4 ≤ i) : mode[i] = false :=
    getElem_eq_false_of_lt (n := 4) (by omega) hi hn
  rw [timer16ConfigMode, configMode, if_pos hmode]
  ext i hi
  interval_cases i <;> simp [TimerRegs.mode, TimerWidth.highMode, hhigh]

/-- The bits of a mode are not those of the clock. -/
theorem clockSelect_configMode {limit : ℕ} {high mode : BitVec 16} (hhigh : high &&& 3 = 0)
    (regs : TimerRegs) : (configMode limit high mode regs).clockSelect = regs.clockSelect := by
  rw [configMode]
  split
  · have hzero : high[0] = false := by simpa using congrArg (BitVec.getLsbD · 0) hhigh
    have hone : high[1] = false := by simpa using congrArg (BitVec.getLsbD · 1) hhigh
    ext i hi
    interval_cases i <;> simp [clockSelect, hzero, hone]
  · rfl

/-- A prescaler is added to the clock that was selected. -/
theorem clockSelect_orPs {ps : BitVec 16} (hps : ps.toNat ≤ 7) (regs : TimerRegs) :
    (regs.orPs ps).clockSelect = regs.clockSelect ||| ps := by
  have hhigh {i : ℕ} (hi : i < 16) (hn : 3 ≤ i) : ps[i] = false :=
    getElem_eq_false_of_lt (n := 3) (by omega) hi hn
  rw [orPs, if_pos hps]
  ext i hi
  interval_cases i <;> simp [clockSelect, hhigh]

/-- The bits of a prescaler are not those of the mode. -/
theorem mode_orPs {ps : BitVec 16} (hps : ps.toNat ≤ 7) (width : TimerWidth) (regs : TimerRegs) :
    (regs.orPs ps).mode width = regs.mode width := by
  have hhigh {i : ℕ} (hi : i < 16) (hn : 3 ≤ i) : ps[i] = false :=
    getElem_eq_false_of_lt (n := 3) (by omega) hi hn
  rw [orPs, if_pos hps]
  ext i hi
  cases width <;> interval_cases i <;> simp [TimerRegs.mode, TimerWidth.highMode, hhigh]

/-- The compare registers and the interrupt mask hold neither field. -/
theorem mode_prepared (width : TimerWidth) (handler : Bool) (port : TimerPort) (unit : ℕ)
    (value : BitVec 16) (regs : TimerRegs) :
    (if handler then irqEn port (set unit value regs) else regs).mode width =
      regs.mode width := by
  rw [set]
  split_ifs <;> rfl

theorem clockSelect_prepared (handler : Bool) (port : TimerPort) (unit : ℕ) (value : BitVec 16)
    (regs : TimerRegs) :
    (if handler then irqEn port (set unit value regs) else regs).clockSelect =
      regs.clockSelect := by
  rw [set]
  split_ifs <;> rfl

/-- Both fields of an 8-bit timer after a mode and a prescaler. -/
theorem fields_timer8 {mode ps : BitVec 16} (hmode : mode.toNat ≤ 7) (hps : ps.toNat ≤ 7)
    (regs : TimerRegs) :
    (timer8ConfigPs ps (timer8ConfigMode mode regs)).mode .eight = regs.mode .eight ||| mode ∧
      (timer8ConfigPs ps (timer8ConfigMode mode regs)).clockSelect = regs.clockSelect ||| ps := by
  constructor
  · calc _ = ((timer8ConfigMode mode regs).orPs ps).mode .eight := rfl
      _ = regs.mode .eight ||| mode := by rw [mode_orPs hps, mode_timer8ConfigMode hmode]
  · calc _ = ((timer8ConfigMode mode regs).orPs ps).clockSelect := rfl
      _ = regs.clockSelect ||| ps := by
          rw [clockSelect_orPs hps, timer8ConfigMode, clockSelect_configMode (by decide)]

/-- Both fields of a 16-bit timer after a mode and a prescaler. -/
theorem fields_timer16 {mode ps : BitVec 16} (hmode : mode.toNat ≤ 15) (hps : ps.toNat ≤ 7)
    (regs : TimerRegs) :
    (timer16ConfigPs ps (timer16ConfigMode mode regs)).mode .sixteen =
        regs.mode .sixteen ||| mode ∧
      (timer16ConfigPs ps (timer16ConfigMode mode regs)).clockSelect =
        regs.clockSelect ||| ps := by
  rw [timer16ConfigPs, mode_orPs hps, mode_timer16ConfigMode hmode, clockSelect_orPs hps,
    timer16ConfigMode, clockSelect_configMode (by decide)]
  exact ⟨rfl, rfl⟩

end TimerRegs

/-! ## Sequences of requests -/

/-- A call of the driver, with what the functions under it return. -/
inductive TimerOp
  | setup (clkEn linked : StatusCode) (port : TimerPort) (mode ps : BitVec 16)
  | shutdown (unlinked clkDis : StatusCode) (port : TimerPort)
  deriving DecidableEq, Repr

namespace TimerOp

/-- The registers after a call. -/
def apply (regs : TimerRegs) : TimerOp → TimerRegs
  | .setup clkEn linked port mode ps => (timerSetup clkEn linked (some port) mode ps regs).2
  | .shutdown unlinked clkDis port => (timerShutdown unlinked clkDis (some port) regs).2

/-- The registers of one timer after calls on its units, from a reset on. -/
def run (ops : List TimerOp) : TimerRegs := ops.foldl apply .cleared

def port : TimerOp → TimerPort
  | .setup _ _ port _ _ | .shutdown _ _ port => port

/-- The mode that a call configures. -/
def mode : TimerOp → BitVec 16
  | .setup _ _ _ mode _ => mode
  | .shutdown _ _ _ => 0

/-- The prescaler that a call configures. -/
def ps : TimerOp → BitVec 16
  | .setup _ _ _ _ ps => ps
  | .shutdown _ _ _ => 0

/-- A call on the timer, which has this width, with a mode and a prescaler that it has. -/
def Valid (width : TimerWidth) (op : TimerOp) : Prop :=
  op.port.width = width ∧ op.mode.toNat ≤ width.maxMode ∧ op.ps.toNat ≤ 7

/-- The registers say what the call asked for. -/
def Followed (width : TimerWidth) (regs : TimerRegs) : TimerOp → Prop
  | .setup _ _ _ mode ps => regs.mode width = mode ∧ regs.clockSelect = ps
  | .shutdown _ _ _ => regs.clockSelect = 0

/-- No earlier call set a bit of the fields that the call leaves out. -/
def Covers (earlier : List TimerOp) : TimerOp → Prop
  | .setup _ _ _ mode ps =>
      (∀ op ∈ earlier, op.mode ||| mode = mode) ∧ ∀ op ∈ earlier, op.ps ||| ps = ps
  | .shutdown _ _ _ => ∀ op ∈ earlier, op.ps = 0

variable {width : TimerWidth} {op : TimerOp} {regs : TimerRegs}

/-- Every call adds its mode and its prescaler to what is selected. -/
theorem fields_apply (hvalid : op.Valid width) :
    (op.apply regs).mode width = regs.mode width ||| op.mode ∧
      (op.apply regs).clockSelect = regs.clockSelect ||| op.ps := by
  obtain ⟨hwidth, hmode, hps⟩ := hvalid
  cases op with
  | setup clkEn linked port mode ps =>
      have hport : port.width = width := hwidth
      cases width with
      | eight =>
          have hfields := TimerRegs.fields_timer8 hmode hps (if port.tmrHandler then
            TimerRegs.irqEn port (TimerRegs.timer8Set port regs) else regs)
          rw [TimerRegs.timer8Set, TimerRegs.mode_prepared, TimerRegs.clockSelect_prepared]
            at hfields
          rw [apply, timerSetup]
          simp only [hport, TimerRegs.timer8Set]
          exact hfields
      | sixteen =>
          have hfields := TimerRegs.fields_timer16 hmode hps (if port.tmrHandler then
            TimerRegs.irqEn port (TimerRegs.timer16Set port regs) else regs)
          rw [TimerRegs.timer16Set, TimerRegs.mode_prepared, TimerRegs.clockSelect_prepared]
            at hfields
          rw [apply, timerSetup]
          simp only [hport, TimerRegs.timer16Set]
          exact hfields
  | shutdown unlinked clkDis port =>
      have hport : port.width = width := hwidth
      simp only [apply, timerShutdown, hport]
      cases width with
      | eight => exact TimerRegs.fields_timer8 hmode hps regs
      | sixteen => exact TimerRegs.fields_timer16 hmode hps regs

/-- The fields gather the modes and the prescalers of all calls. -/
theorem fields_run {ops : List TimerOp} (hvalid : ∀ op ∈ ops, op.Valid width) :
    (run ops).mode width = gather (ops.map mode) ∧
      (run ops).clockSelect = gather (ops.map ps) := by
  induction ops using List.reverseRecOn with
  | nil => cases width <;> exact ⟨rfl, rfl⟩
  | append_singleton ops op ih =>
      obtain ⟨hmode, hps⟩ := ih fun earlier hearlier =>
        hvalid earlier (List.mem_append_left _ hearlier)
      have hstep := @fields_apply width op (run ops) (hvalid op (by simp))
      have hrun : run (ops ++ [op]) = op.apply (run ops) := List.foldl_concat ..
      rw [hrun, hstep.1, hstep.2, hmode, hps, List.map_append, List.map_append,
        List.map_singleton, List.map_singleton, gather_concat, gather_concat]
      exact ⟨rfl, rfl⟩

/-- The registers follow the last call of a sequence exactly when that call covers every bit
that the earlier ones set. -/
theorem followed_iff {ops : List TimerOp} (hvalid : ∀ earlier ∈ ops ++ [op], earlier.Valid width) :
    op.Followed width (run (ops ++ [op])) ↔ op.Covers ops := by
  obtain ⟨hmode, hps⟩ := fields_run hvalid
  rw [List.map_append, List.map_singleton, gather_concat] at hmode hps
  cases op with
  | setup clkEn linked port mode ps =>
      rw [Followed, Covers, hmode, hps]
      refine and_congr (gather_or_eq_iff _ _) (gather_or_eq_iff _ _) |>.trans ?_
      rw [List.forall_mem_map, List.forall_mem_map]
      exact Iff.rfl
  | shutdown unlinked clkDis port =>
      rw [Followed, Covers, hps]
      refine (gather_or_eq_iff _ _).trans ?_
      rw [List.forall_mem_map]
      exact forall₂_congr fun _ _ => Eq.congr_left BitVec.or_zero

instance (op : TimerOp) : Decidable (op.Valid width) :=
  inferInstanceAs (Decidable (op.port.width = width ∧ op.mode.toNat ≤ width.maxMode ∧
    op.ps.toNat ≤ 7))

/-- Mode 2 and prescaler 4 are covered by mode 3 and prescaler 5. -/
theorem followed_iff_covered :
    (TimerOp.setup 0 0 ⟨0x10, 99, false⟩ 3 5).Followed .sixteen
      (run ([.setup 0 0 ⟨0x10, 61, true⟩ 2 4] ++ [.setup 0 0 ⟨0x10, 99, false⟩ 3 5])) := by
  have hvalid : ∀ op ∈ [TimerOp.setup 0 0 ⟨0x10, 61, true⟩ 2 4] ++
      [.setup 0 0 ⟨0x10, 99, false⟩ 3 5], op.Valid .sixteen := by decide
  refine (followed_iff hvalid).mpr ⟨?_, ?_⟩
  · decide
  · decide

/-- Mode 2 and prescaler 4, then mode 1 and prescaler 3, select mode 3 and prescaler 7; a
shutdown after the first request leaves the timer running. -/
theorem not_followed :
    (¬ (TimerOp.setup 0 0 ⟨0, 61, true⟩ 1 3).Followed .eight
        (run [.setup 0 0 ⟨0, 61, true⟩ 2 4, .setup 0 0 ⟨0, 61, true⟩ 1 3]) ∧
      (run [.setup 0 0 ⟨0, 61, true⟩ 2 4, .setup 0 0 ⟨0, 61, true⟩ 1 3]).mode .eight = 3 ∧
      (run [.setup 0 0 ⟨0, 61, true⟩ 2 4, .setup 0 0 ⟨0, 61, true⟩ 1 3]).clockSelect = 7) ∧
    ¬ (TimerOp.shutdown 0 0 ⟨0, 61, true⟩).Followed .eight
        (run [.setup 0 0 ⟨0, 61, true⟩ 2 4, .shutdown 0 0 ⟨0, 61, true⟩]) ∧
      (run [.setup 0 0 ⟨0, 61, true⟩ 2 4, .shutdown 0 0 ⟨0, 61, true⟩]).clockSelect = 4 := by
  refine ⟨⟨fun hfollowed => ?_, by decide, by decide⟩, fun hfollowed => ?_, by decide⟩
  · exact absurd hfollowed.1 (by decide)
  · have hstopped : (run [.setup 0 0 ⟨0, 61, true⟩ 2 4,
        .shutdown 0 0 ⟨0, 61, true⟩]).clockSelect = 0 := hfollowed
    exact absurd hstopped (by decide)

end TimerOp

end Cyancore.Driver
