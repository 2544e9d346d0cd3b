/-
# What a clock request reports

A request passes through helpers that each gather the statuses of their own steps, log a
failure, and return nothing.  What the caller receives comes from the callbacks alone, and
the recorded mode changes whatever the steps did.  A request therefore reports truly just
when its steps cannot fail, or cannot be seen to have failed.
-/

import Cyancore.Driver.CoreClock

namespace Cyancore.Driver

open Cyancore.Math Prci StatusCode

/-! ## The recorded mode

Only the last store of a request changes it, so it is the same in every state that the
hardware sees. -/

@[simp]
theorem ClockState.settle_clkType (clock : ClockState) : clock.settle.clkType = clock.clkType := by
  unfold ClockState.settle
  split <;> rfl

@[simp]
theorem ClockState.settle_prci (clock : ClockState) : clock.settle.prci = clock.prci := by
  unfold ClockState.settle
  split <;> rfl

/-- The code leaves the recorded mode as it was. -/
abbrev KeepsMode {α : Type} (code : ClockOp α) (clock : ClockState) : Prop :=
  code.Keeps ClockState.clkType clock

theorem keepsMode_storePrci (f : Prci → Prci) (clock : ClockState) :
    KeepsMode (storePrci f) clock :=
  .store (ClockState.settle_clkType _)

theorem keepsMode_storeDividers (f : Prci → Prci) (clock : ClockState) :
    KeepsMode (storeDividers f) clock :=
  .store (ClockState.settle_clkType _)

theorem keepsMode_waitUntil (ready : Prci → Bool) (clock : ClockState) :
    KeepsMode (waitUntil ready) clock := by
  apply Traced.Keeps.bind (.read _ clock)
  intro value clock
  cases value with
  | true => exact .pure _ clock
  | false => exact .hang clock

theorem keepsMode_status (test : Prci → Bool) (yes no : StatusCode) (clock : ClockState) :
    KeepsMode (do if ← readPrci test then return yes else return no) clock := by
  apply Traced.Keeps.bind (.read _ clock)
  intro value clock
  cases value with
  | true => exact .pure _ clock
  | false => exact .pure _ clock

theorem keepsMode_prciHfxocsEnable (clock : ClockState) : KeepsMode prciHfxocsEnable clock :=
  (keepsMode_storePrci _ clock).bind fun _ clock =>
  (keepsMode_waitUntil _ clock).bind fun _ => keepsMode_status _ _ _

theorem keepsMode_prciHfxocsDisable (clock : ClockState) : KeepsMode prciHfxocsDisable clock :=
  (keepsMode_storePrci _ clock).bind fun _ => keepsMode_status _ _ _

theorem keepsMode_prciHfoscEnable (clock : ClockState) : KeepsMode prciHfoscEnable clock :=
  (keepsMode_storePrci _ clock).bind fun _ clock =>
  (keepsMode_waitUntil _ clock).bind fun _ => keepsMode_status _ _ _

theorem keepsMode_prciHfoscDisable (clock : ClockState) : KeepsMode prciHfoscDisable clock :=
  (keepsMode_storePrci _ clock).bind fun _ => keepsMode_status _ _ _

theorem keepsMode_prciHfoscSetClk (clk : ℕ) (clock : ClockState) :
    KeepsMode (prciHfoscSetClk clk) clock := by
  unfold prciHfoscSetClk
  split
  · exact .abort _ clock
  · apply (keepsMode_storePrci _ clock).bind
    intro _ clock
    exact (keepsMode_waitUntil _ clock).bind fun _ => keepsMode_status _ _ _

theorem keepsMode_prciPllWriteConfig (conf : PllConfig) (clock : ClockState) :
    KeepsMode (prciPllWriteConfig conf) clock := by
  unfold prciPllWriteConfig
  split
  · split
    · exact (keepsMode_storePrci _ clock).bind fun _ => keepsMode_storeDividers _
    · exact (keepsMode_storePrci _ clock).bind fun _ => keepsMode_storeDividers _
  · exact .pure _ clock

theorem keepsMode_prciPllSetClk (port : SysclkPort) (clk : ℕ) (lockClears : Bool)
    (clock : ClockState) : KeepsMode (prciPllSetClk port clk lockClears) clock := by
  unfold prciPllSetClk
  split
  · apply Traced.Keeps.bind (.modify rfl)
    intro _ clock
    apply (keepsMode_prciPllWriteConfig _ clock).bind
    intro _ clock
    cases lockClears with
    | true => exact .pure _ clock
    | false => exact .hang clock
  · exact .abort _ clock

theorem keepsMode_sysclkSetInternal (clk : ℕ) (clock : ClockState) :
    KeepsMode (sysclkSetInternal clk) clock :=
  (keepsMode_prciHfxocsEnable clock).bind fun _ clock =>
  (keepsMode_storePrci _ clock).bind fun _ clock =>
  (keepsMode_prciHfoscEnable clock).bind fun _ clock =>
  (keepsMode_prciHfoscSetClk clk clock).bind fun _ clock =>
  (keepsMode_storePrci _ clock).bind fun _ clock =>
  (keepsMode_storePrci _ clock).bind fun _ clock =>
  (keepsMode_storePrci _ clock).bind fun _ clock =>
  (keepsMode_prciHfxocsDisable clock).bind fun _ => .pure _

theorem keepsMode_sysclkSetExternal (clock : ClockState) : KeepsMode sysclkSetExternal clock :=
  (keepsMode_prciHfoscEnable clock).bind fun _ clock =>
  (keepsMode_prciHfxocsEnable clock).bind fun _ clock =>
  (keepsMode_storePrci _ clock).bind fun _ clock =>
  (keepsMode_storePrci _ clock).bind fun _ clock =>
  (keepsMode_storePrci _ clock).bind fun _ clock =>
  (keepsMode_prciHfoscDisable clock).bind fun _ => .pure _

theorem keepsMode_sysclkSetPll (port : SysclkPort) (clk : ℕ) (lockClears : Bool)
    (clock : ClockState) : KeepsMode (sysclkSetPll port clk lockClears) clock :=
  (keepsMode_prciHfoscEnable clock).bind fun _ clock =>
  (keepsMode_prciHfxocsEnable clock).bind fun _ clock =>
  (keepsMode_storePrci _ clock).bind fun _ clock =>
  (keepsMode_storePrci _ clock).bind fun _ clock =>
  (keepsMode_prciPllSetClk port clk lockClears clock).bind fun _ clock =>
  (keepsMode_storePrci _ clock).bind fun _ clock =>
  (keepsMode_storePrci _ clock).bind fun _ clock =>
  (keepsMode_prciHfoscDisable clock).bind fun _ => .pure _

/-! ## The steps

Registers hold what is written to them, so an oscillator always obeys.  The divider of the
internal oscillator has six bits, and a quotient that they cannot hold is refused. -/

/-- The quotient `ICLK / clk` less one fits in the divider's field. -/
def DividerFits (clk : ℕ) : Prop := 1107693 ≤ clk ∧ clk ≤ iclk

instance (clk : ℕ) : Decidable (DividerFits clk) :=
  inferInstanceAs (Decidable (_ ∧ _))

/-- Nothing is said of the state in which a step returns. -/
abbrev Succeeds (code : ClockOp StatusCode) (clock : ClockState) : Prop :=
  code.Returns clock success fun _ => True

theorem returns_storePrci {f : Prci → Prci} {post : ClockState → Prop} {clock : ClockState}
    (hpost : ∀ clock', clock'.prci = f clock.prci → post clock') :
    (storePrci f).Returns clock ⟨⟩ post :=
  .store (hpost _ (ClockState.settle_prci _))

theorem passes_storePrci (f : Prci → Prci) (clock : ClockState) :
    (storePrci f).Returns clock ⟨⟩ fun _ => True :=
  returns_storePrci fun _ _ => trivial

theorem passes_modify (f : ClockState → ClockState) (clock : ClockState) :
    (Traced.modify f : ClockOp PUnit).Returns clock ⟨⟩ fun _ => True :=
  .modify trivial

theorem returns_waitUntil {ready : Prci → Bool} {clock : ClockState}
    (hready : ready clock.prci = true) :
    (waitUntil ready).Returns clock ⟨⟩ fun clock' => clock' = clock := by
  apply Traced.Returns.ofRead
  simp only [hready, if_true]
  exact .pure _ rfl

theorem returns_status {test : Prci → Bool} {yes no status : StatusCode} {clock : ClockState}
    {post : ClockState → Prop} (hstatus : (if test clock.prci then yes else no) = status)
    (hpost : post clock) :
    (do if ← readPrci test then return yes else return no : ClockOp StatusCode).Returns clock
      status post := by
  apply Traced.Returns.ofRead
  cases htest : test clock.prci with
  | true =>
      rw [htest] at hstatus
      exact ⟨clock, by rw [← hstatus]; rfl, hpost⟩
  | false =>
      rw [htest] at hstatus
      exact ⟨clock, by rw [← hstatus]; rfl, hpost⟩

/-- An oscillator is ready once it is enabled. -/
@[simp]
theorem readOsc_rdy (word : BitVec 32) {en rdy : ℕ} (hen : en < 32) (hrdy : rdy < 32) :
    (readOsc word en rdy)[rdy] = word[en] := by
  unfold readOsc
  rw [BitVec.getLsbD_eq_getElem hen]
  cases word[en] with
  | true => simp [hrdy]
  | false => simp

theorem readOsc_and_mask (word : BitVec 32) :
    readOsc word 30 31 &&& hfrosdivMask = word &&& hfrosdivMask := by
  have hmask : hfrosdivMask.toNat < 2 ^ 6 := by decide
  ext i hi
  unfold readOsc
  by_cases hlow : i < 6
  · split
    · simp [show i ≠ 31 by omega]
    · simp [show i ≠ 31 by omega]
  · rw [BitVec.getElem_and, BitVec.getElem_and,
      getElem_eq_false_of_lt hmask hi (Nat.le_of_not_lt hlow), Bool.and_false, Bool.and_false]

theorem succeeds_prciHfxocsEnable (clock : ClockState) : Succeeds prciHfxocsEnable clock := by
  apply Traced.Returns.bind (returns_storePrci fun clock' hclock' => hclock')
  intro clock' hclock'
  apply Traced.Returns.bind (returns_waitUntil _)
  · rintro _ rfl
    apply returns_status _ trivial
    simp [hclock', readHfxosccfg, hfxosen, hfxosrdy]
  · simp [hclock', readHfxosccfg, hfxosen, hfxosrdy]

theorem succeeds_prciHfxocsDisable (clock : ClockState) : Succeeds prciHfxocsDisable clock := by
  apply Traced.Returns.bind (returns_storePrci fun clock' hclock' => hclock')
  intro clock' hclock'
  apply returns_status _ trivial
  simp [hclock', readHfxosccfg, hfxosen, hfxosrdy]

/-- The internal oscillator is left running. -/
theorem returns_prciHfoscEnable (clock : ClockState) :
    prciHfoscEnable.Returns clock success fun clock' =>
      clock'.prci.hfrosccfg.getLsbD hfrosen = true := by
  apply Traced.Returns.bind (returns_storePrci fun clock' hclock' => hclock')
  intro clock' hclock'
  apply Traced.Returns.bind (returns_waitUntil _)
  · rintro _ rfl
    apply returns_status
    · simp [hclock', readHfrosccfg, hfrosen, hfrosrdy]
    · simp [hclock', hfrosen]
  · simp [hclock', readHfrosccfg, hfrosen, hfrosrdy]

theorem succeeds_prciHfoscDisable (clock : ClockState) : Succeeds prciHfoscDisable clock := by
  apply Traced.Returns.bind (returns_storePrci fun clock' hclock' => hclock')
  intro clock' hclock'
  apply returns_status _ trivial
  simp [hclock', readHfrosccfg, hfrosen, hfrosrdy]

/-- The divider that is computed survives the mask exactly when it fits. -/
theorem divider_and_mask_eq_iff {clk : ℕ} (hclk : clk ≠ 0) :
    (BitVec.ofNat 32 (iclk / clk) - 1) &&& hfrosdivMask = BitVec.ofNat 32 (iclk / clk) - 1 ↔
      DividerFits clk := by
  have hquotient : iclk / clk ≤ 72000000 := Nat.div_le_self _ _
  have hmask (word : ℕ) : word &&& 63 = word % 64 := Nat.and_two_pow_sub_one_eq_mod word 6
  have hleast : 1 ≤ iclk / clk ↔ clk ≤ iclk := by
    rw [Nat.le_div_iff_mul_le (Nat.pos_of_ne_zero hclk), Nat.one_mul]
  have hmost : iclk / clk < 65 ↔ 72000000 < 65 * clk := Nat.div_lt_iff_lt_mul
    (Nat.pos_of_ne_zero hclk)
  rw [← BitVec.toNat_inj, BitVec.toNat_and]
  simp only [BitVec.toNat_sub, BitVec.toNat_ofNat, BitVec.ofNat_eq_ofNat, Nat.reducePow,
    Nat.reduceMod, hmask, DividerFits]
  generalize iclk / clk = quotient at *
  unfold iclk at *
  omega

/-- `prci_hfosc_set_clk` on a running oscillator says whether the divider fits. -/
theorem returns_prciHfoscSetClk {clk : ℕ} (hclk : clk ≠ 0) {clock : ClockState}
    (hrunning : clock.prci.hfrosccfg.getLsbD hfrosen = true) :
    (prciHfoscSetClk clk).Returns clock (if DividerFits clk then success else errorSystem)
      fun _ => True := by
  unfold prciHfoscSetClk
  rw [if_neg hclk]
  apply Traced.Returns.bind (returns_storePrci fun clock' hclock' => hclock')
  intro clock' hclock'
  have hbit : clock.prci.hfrosccfg[30] = true := hrunning
  have hread : clock'.prci.readHfrosccfg &&& hfrosdivMask =
      (BitVec.ofNat 32 (iclk / clk) - 1) &&& hfrosdivMask := by
    rw [Prci.readHfrosccfg, readOsc_and_mask, hclock']
    ext i hi
    simp only [BitVec.getElem_and, BitVec.getElem_or, BitVec.getElem_not]
    cases hfrosdivMask[i] <;> simp
  apply Traced.Returns.bind (returns_waitUntil _)
  · intro clock'' hsame
    rw [hsame]
    apply returns_status _ trivial
    simp only [hread, beq_iff_eq, divider_and_mask_eq_iff hclk]
  · simp [hclock', readHfrosccfg, hfxosrdy, hfrosen, hfrosrdy, hbit]

/-! ## The requests -/

/-- `sysclk_set_internal` ends well exactly when the divider fits. -/
theorem returns_sysclkSetInternal {clk : ℕ} (hclk : clk ≠ 0) (clock : ClockState) :
    (sysclkSetInternal clk).Returns clock (if DividerFits clk then success else errorSystem)
      fun _ => True := by
  apply Traced.Returns.bind (succeeds_prciHfxocsEnable clock)
  intro clock _
  apply Traced.Returns.bind (passes_storePrci _ clock)
  intro clock _
  apply Traced.Returns.bind (returns_prciHfoscEnable clock)
  intro clock hrunning
  apply Traced.Returns.bind (returns_prciHfoscSetClk hclk hrunning)
  intro clock _
  apply Traced.Returns.bind (passes_storePrci _ clock)
  intro clock _
  apply Traced.Returns.bind (passes_storePrci _ clock)
  intro clock _
  apply Traced.Returns.bind (passes_storePrci _ clock)
  intro clock _
  apply Traced.Returns.bind (succeeds_prciHfxocsDisable clock)
  intro clock _
  refine ⟨clock, ?_, trivial⟩
  by_cases hfits : DividerFits clk
  · rw [if_pos hfits]
    rfl
  · rw [if_neg hfits]
    rfl

/-- A request for zero hertz divides by it. -/
theorem outcome_sysclkSetInternal_zero (clock : ClockState) :
    (sysclkSetInternal 0 clock).outcome = .fault .divideByZero := by
  apply Traced.Returns.outcome_bind (succeeds_prciHfxocsEnable clock)
  intro clock _
  apply Traced.Returns.outcome_bind (passes_storePrci _ clock)
  intro clock _
  apply Traced.Returns.outcome_bind (returns_prciHfoscEnable clock)
  intro clock _
  exact Traced.outcome_bind_of_fault rfl

theorem succeeds_sysclkSetExternal (clock : ClockState) : Succeeds sysclkSetExternal clock := by
  apply Traced.Returns.bind (returns_prciHfoscEnable clock)
  intro clock _
  apply Traced.Returns.bind (succeeds_prciHfxocsEnable clock)
  intro clock _
  apply Traced.Returns.bind (passes_storePrci _ clock)
  intro clock _
  apply Traced.Returns.bind (passes_storePrci _ clock)
  intro clock _
  apply Traced.Returns.bind (passes_storePrci _ clock)
  intro clock _
  apply Traced.Returns.bind (succeeds_prciHfoscDisable clock)
  intro clock _
  exact ⟨clock, rfl, trivial⟩

theorem returns_prciPllWriteConfig (conf : PllConfig) (clock : ClockState) :
    (prciPllWriteConfig conf).Returns clock ⟨⟩ fun _ => True := by
  unfold prciPllWriteConfig
  split
  · split
    · exact (passes_storePrci _ clock).bind fun _ _ => .store trivial
    · exact (passes_storePrci _ clock).bind fun _ _ => .store trivial
  · exact .pure _ trivial

theorem returns_prciPllSetClk {clk : ℕ} (hrange : minPllOut ≤ clk ∧ clk ≤ maxPllOut)
    (port : SysclkPort) (clock : ClockState) :
    (prciPllSetClk port clk true).Returns clock ⟨⟩ fun _ => True := by
  unfold prciPllSetClk
  rw [if_pos hrange]
  apply Traced.Returns.bind (passes_modify _ clock)
  intro clock _
  exact (returns_prciPllWriteConfig _ clock).bind fun _ _ => .pure _ trivial

/-- `sysclk_set_pll` ends well whether or not the search found a configuration. -/
theorem succeeds_sysclkSetPll {clk : ℕ} (hrange : minPllOut ≤ clk ∧ clk ≤ maxPllOut)
    (port : SysclkPort) (clock : ClockState) : Succeeds (sysclkSetPll port clk true) clock := by
  apply Traced.Returns.bind (returns_prciHfoscEnable clock)
  intro clock _
  apply Traced.Returns.bind (succeeds_prciHfxocsEnable clock)
  intro clock _
  apply Traced.Returns.bind (passes_storePrci _ clock)
  intro clock _
  apply Traced.Returns.bind (passes_storePrci _ clock)
  intro clock _
  apply Traced.Returns.bind (returns_prciPllSetClk hrange port clock)
  intro clock _
  apply Traced.Returns.bind (passes_storePrci _ clock)
  intro clock _
  apply Traced.Returns.bind (passes_storePrci _ clock)
  intro clock _
  apply Traced.Returns.bind (succeeds_prciHfoscDisable clock)
  intro clock _
  exact ⟨clock, rfl, trivial⟩

/-- Where the setting of the PLL does not return, neither does the request. -/
theorem outcome_sysclkSetPll {port : SysclkPort} {clk : ℕ} {lockClears : Bool}
    {outcome : Outcome ClockFault (StatusCode × ClockState)}
    (hset : ∀ rest clock, ((prciPllSetClk port clk lockClears >>= rest) clock).outcome = outcome)
    (clock : ClockState) : (sysclkSetPll port clk lockClears clock).outcome = outcome := by
  apply Traced.Returns.outcome_bind (returns_prciHfoscEnable clock)
  intro clock _
  apply Traced.Returns.outcome_bind (succeeds_prciHfxocsEnable clock)
  intro clock _
  apply Traced.Returns.outcome_bind (passes_storePrci _ clock)
  intro clock _
  apply Traced.Returns.outcome_bind (passes_storePrci _ clock)
  intro clock _
  exact hset _ clock

/-- It waits for good on a PLL that does not lock. -/
theorem outcome_sysclkSetPll_false {clk : ℕ} (hrange : minPllOut ≤ clk ∧ clk ≤ maxPllOut)
    (port : SysclkPort) (clock : ClockState) :
    (sysclkSetPll port clk false clock).outcome = .spin := by
  apply outcome_sysclkSetPll
  intro rest clock
  apply Traced.outcome_bind_of_spin
  unfold prciPllSetClk
  rw [if_pos hrange]
  apply Traced.Returns.outcome_bind (passes_modify _ clock)
  intro clock _
  exact (returns_prciPllWriteConfig _ clock).outcome_bind fun _ _ => rfl

/-- The assertion stops it on a frequency out of range. -/
theorem outcome_sysclkSetPll_of_range {clk : ℕ} (hrange : ¬ (minPllOut ≤ clk ∧ clk ≤ maxPllOut))
    (port : SysclkPort) (lockClears : Bool) (clock : ClockState) :
    (sysclkSetPll port clk lockClears clock).outcome = .fault .panic := by
  apply outcome_sysclkSetPll
  intro rest clock
  apply Traced.outcome_bind_of_fault
  unfold prciPllSetClk
  rw [if_neg hrange]
  rfl

/-! ## The report -/

/-- A request for a source and a frequency, with what its surroundings contribute. -/
structure ClockOrder where
  type : ClockType
  clk : ℕ
  lockClears : Bool
  before : StatusCode
  after : StatusCode
  deriving DecidableEq, Repr

/-- Its number in a register. -/
def ClockType.toArg : ClockType → ℕ
  | .internal => 0
  | .external => 1
  | .pll => 2

theorem ClockType.ofArg?_toArg (type : ClockType) : ofArg? type.toArg = some type := by
  cases type <;> rfl

namespace ClockOrder

variable (order : ClockOrder) (port : SysclkPort) (clock : ClockState)

/-- The call that serves the order. -/
def code : ClockOp StatusCode :=
  sysclkConfigureClk order.type.toArg order.clk order.lockClears order.before order.after

/-- Every step that serves the order succeeds: the oscillators obey, the divider is
accepted, and the search finds a configuration. -/
def StepsSucceed : Prop :=
  match order.type with
  | .internal => Succeeds (sysclkSetInternal order.clk) clock
  | .external =>
      (sysclkSetInternal order.clk).Returns clock success (Succeeds sysclkSetExternal)
  | .pll =>
      (pllConfigForNearestFreq port.baseClk order.clk).found = true ∧
        Succeeds (sysclkSetPll port order.clk order.lockClears) clock

/-- The order is reported: nothing is divided by zero, only an order whose steps succeed
returns success, and any other leaves the recorded mode as it was. -/
structure Reported : Prop where
  divides : (order.code clock).outcome ≠ .fault .divideByZero
  succeeds : ∀ clock', (order.code clock).outcome = .done (success, clock') →
    order.StepsSucceed port clock
  keeps : ¬ order.StepsSucceed port clock → order.code.Keeps ClockState.clkType clock

/-- Nobody can tell that the steps failed: a callback reports a failure of its own, and the
mode is the one recorded before. -/
def Unseen : Prop := order.before ||| order.after ≠ success ∧ clock.clkType = order.type

/-- When the order is reported. -/
def Reportable : Prop :=
  match order.type with
  | .internal => order.clk ≠ 0 ∧ (DividerFits order.clk ∨ order.Unseen clock)
  | .external => order.clk ≠ 0 ∧ (DividerFits order.clk ∨ order.Unseen clock)
  | .pll =>
      minPllOut ≤ order.clk ∧ order.clk ≤ maxPllOut ∧ order.lockClears = true →
        6000000 ≤ port.baseClk ∧ port.baseClk ≤ 96000007 ∨ order.Unseen clock

/-! ### The order on a port -/

variable {order port clock}

theorem withPort_of_port {status : StatusCode} {body : SysclkPort → ClockOp StatusCode}
    (hport : clock.port? = some port) : withPort status body clock = body port clock := by
  obtain ⟨hsome, hset⟩ := Option.filter_eq_some_iff.mp hport
  simp only [withPort, bind, Traced.bind, Traced.read, hsome]
  rw [if_pos (of_decide_eq_true hset)]
  rfl

/-- The mode is recorded, and the callbacks answer for the request. -/
def record (order : ClockOrder) : ClockOp StatusCode := do
  Traced.modify fun clock => { clock with clkType := order.type }
  return order.before ||| order.after

theorem still_record (clock : ClockState) : order.record.Still ClockState.clkType clock := by
  intro clock' hmem
  cases hmem

theorem returns_record (clock : ClockState) :
    order.record.Returns clock (order.before ||| order.after) fun clock' =>
      clock'.clkType = order.type :=
  ⟨_, rfl, rfl⟩

/-- The steps of the order, whose statuses go nowhere. -/
theorem code_internal (hport : clock.port? = some port) (htype : order.type = .internal) :
    order.code clock = (sysclkSetInternal order.clk >>= fun _ => order.record) clock := by
  simp only [code, sysclkConfigureClk, ClockType.ofArg?_toArg, record, htype]
  rw [withPort_of_port hport]

theorem code_external (hport : clock.port? = some port) (htype : order.type = .external) :
    order.code clock =
      (sysclkSetInternal order.clk >>= fun _ => sysclkSetExternal >>= fun _ => order.record)
        clock := by
  simp only [code, sysclkConfigureClk, ClockType.ofArg?_toArg, record, htype]
  rw [withPort_of_port hport]

theorem code_pll (hport : clock.port? = some port) (htype : order.type = .pll) :
    order.code clock =
      (sysclkSetPll port order.clk order.lockClears >>= fun _ => order.record) clock := by
  simp only [code, sysclkConfigureClk, ClockType.ofArg?_toArg, record, htype]
  rw [withPort_of_port hport]

/-- No state that the hardware sees has another mode than the first. -/
theorem still_code (hport : clock.port? = some port) :
    order.code.Still ClockState.clkType clock := by
  unfold Traced.Still
  cases htype : order.type with
  | internal =>
      rw [code_internal hport htype]
      exact (keepsMode_sysclkSetInternal _ clock).still_bind fun _ => still_record
  | external =>
      rw [code_external hport htype]
      apply (keepsMode_sysclkSetInternal _ clock).still_bind
      exact fun _ clock => (keepsMode_sysclkSetExternal clock).still_bind fun _ => still_record
  | pll =>
      rw [code_pll hport htype]
      exact (keepsMode_sysclkSetPll port _ _ clock).still_bind fun _ => still_record

/-- An order that does not return, and divides nothing by zero, is reported. -/
theorem reported_of_not_done (hport : clock.port? = some port)
    (hdivides : (order.code clock).outcome ≠ .fault .divideByZero)
    (hdone : ∀ status clock', (order.code clock).outcome ≠ .done (status, clock')) :
    order.Reported port clock where
  divides := hdivides
  succeeds clock' hreturn := absurd hreturn (hdone success clock')
  keeps _ := ⟨still_code hport, fun status clock' hreturn => absurd hreturn (hdone status clock')⟩

/-- An order that returns is reported if its steps succeed, or nobody can tell. -/
theorem reported_iff_of_returns (hport : clock.port? = some port)
    (hreturns : order.code.Returns clock (order.before ||| order.after) fun clock' =>
      clock'.clkType = order.type) :
    order.Reported port clock ↔ order.StepsSucceed port clock ∨ order.Unseen clock := by
  obtain ⟨after, hdone, hmode⟩ := hreturns
  constructor
  · intro hreported
    by_cases hsteps : order.StepsSucceed port clock
    · exact .inl hsteps
    · right
      constructor
      · intro hstatus
        rw [hstatus] at hdone
        exact hsteps (hreported.succeeds after hdone)
      · rw [← hmode]
        exact ((hreported.keeps hsteps).outcome _ after hdone).symm
  · intro hor
    constructor
    · intro hdivides
      rw [hdone] at hdivides
      cases hdivides
    · intro clock' hreturn
      rw [hdone] at hreturn
      injection hreturn with hresult
      injection hresult with hstatus _
      exact hor.resolve_right fun hunseen => hunseen.1 hstatus
    · intro hsteps
      refine ⟨still_code hport, ?_⟩
      intro status clock' hreturn
      rw [hdone] at hreturn
      injection hreturn with hresult
      injection hresult with _ hclock
      rw [← hclock, hmode, (hor.resolve_left hsteps).2]

/-! ### The three sources -/

/-- What returns cannot return anything else. -/
theorem succeeds_iff_of_returns {code : ClockOp StatusCode} {status : StatusCode}
    {post : ClockState → Prop} (hreturns : code.Returns clock status post) :
    Succeeds code clock ↔ status = success := by
  obtain ⟨after, hdone, _⟩ := hreturns
  constructor
  · rintro ⟨after', hdone', _⟩
    rw [hdone] at hdone'
    injection hdone' with hresult
    injection hresult
  · rintro rfl
    exact ⟨after, hdone, trivial⟩

theorem dividerStatus_eq_success_iff (clk : ℕ) :
    (if DividerFits clk then success else errorSystem) = success ↔ DividerFits clk := by
  by_cases hfits : DividerFits clk
  · simp [hfits]
  · simp [hfits, success, errorSystem]

theorem stepsSucceed_internal_iff (hclk : order.clk ≠ 0) (htype : order.type = .internal) :
    order.StepsSucceed port clock ↔ DividerFits order.clk := by
  unfold StepsSucceed
  rw [htype, succeeds_iff_of_returns (returns_sysclkSetInternal hclk clock),
    dividerStatus_eq_success_iff]

theorem stepsSucceed_external_iff (hclk : order.clk ≠ 0) (htype : order.type = .external) :
    order.StepsSucceed port clock ↔ DividerFits order.clk := by
  unfold StepsSucceed
  rw [htype, ← dividerStatus_eq_success_iff,
    ← succeeds_iff_of_returns (returns_sysclkSetInternal hclk clock)]
  constructor
  · rintro ⟨middle, hdone, _⟩
    exact ⟨middle, hdone, trivial⟩
  · rintro ⟨middle, hdone, _⟩
    exact ⟨middle, hdone, succeeds_sysclkSetExternal middle⟩

/-- An order for the internal oscillator or the crystal starts with the divider. -/
theorem outcome_code_of_clk_eq_zero (hport : clock.port? = some port)
    (htype : order.type ≠ .pll) (hclk : order.clk = 0) :
    (order.code clock).outcome = .fault .divideByZero := by
  have hzero := outcome_sysclkSetInternal_zero clock
  rw [← hclk] at hzero
  cases hcase : order.type with
  | internal =>
      rw [code_internal hport hcase]
      exact Traced.outcome_bind_of_fault hzero
  | external =>
      rw [code_external hport hcase]
      exact Traced.outcome_bind_of_fault hzero
  | pll => exact absurd hcase htype

theorem returns_code_internal (hport : clock.port? = some port) (htype : order.type = .internal)
    (hclk : order.clk ≠ 0) :
    order.code.Returns clock (order.before ||| order.after) fun clock' =>
      clock'.clkType = order.type := by
  unfold Traced.Returns
  rw [code_internal hport htype]
  exact (returns_sysclkSetInternal hclk clock).bind fun clock _ => returns_record clock

theorem returns_code_external (hport : clock.port? = some port) (htype : order.type = .external)
    (hclk : order.clk ≠ 0) :
    order.code.Returns clock (order.before ||| order.after) fun clock' =>
      clock'.clkType = order.type := by
  unfold Traced.Returns
  rw [code_external hport htype]
  apply (returns_sysclkSetInternal hclk clock).bind
  exact fun clock _ => (succeeds_sysclkSetExternal clock).bind fun clock _ => returns_record clock

theorem reported_iff_of_divider (hport : clock.port? = some port) (htype : order.type ≠ .pll) :
    order.Reported port clock ↔ order.clk ≠ 0 ∧ (DividerFits order.clk ∨ order.Unseen clock) := by
  by_cases hclk : order.clk = 0
  · constructor
    · intro hreported
      exact absurd (outcome_code_of_clk_eq_zero hport htype hclk) hreported.divides
    · intro hreportable
      exact absurd hclk hreportable.1
  · cases hcase : order.type with
    | internal =>
        rw [reported_iff_of_returns hport (returns_code_internal hport hcase hclk),
          stepsSucceed_internal_iff hclk hcase, and_iff_right hclk]
    | external =>
        rw [reported_iff_of_returns hport (returns_code_external hport hcase hclk),
          stepsSucceed_external_iff hclk hcase, and_iff_right hclk]
    | pll => exact absurd hcase htype

/-- An order for the PLL returns unless the frequency is out of range or it never locks. -/
theorem reported_iff_of_pll (hport : clock.port? = some port) (htype : order.type = .pll) :
    order.Reported port clock ↔
      (minPllOut ≤ order.clk ∧ order.clk ≤ maxPllOut ∧ order.lockClears = true →
        6000000 ≤ port.baseClk ∧ port.baseClk ≤ 96000007 ∨ order.Unseen clock) := by
  by_cases hrange : minPllOut ≤ order.clk ∧ order.clk ≤ maxPllOut
  · cases hlock : order.lockClears with
    | true =>
        have hset := succeeds_sysclkSetPll hrange port clock
        have hreturns : order.code.Returns clock (order.before ||| order.after) fun clock' =>
            clock'.clkType = order.type := by
          unfold Traced.Returns
          rw [code_pll hport htype, hlock]
          exact hset.bind fun clock _ => returns_record clock
        have hsteps : order.StepsSucceed port clock ↔
            6000000 ≤ port.baseClk ∧ port.baseClk ≤ 96000007 := by
          unfold StepsSucceed
          rw [htype, ← found_pllConfigForNearestFreq_iff hrange.1 hrange.2, hlock]
          exact and_iff_left hset
        rw [reported_iff_of_returns hport hreturns, hsteps]
        simp [hrange]
    | false =>
        have hspin : (order.code clock).outcome = .spin := by
          rw [code_pll hport htype, hlock]
          exact Traced.outcome_bind_of_spin (outcome_sysclkSetPll_false hrange port clock)
        simp only [Bool.false_eq_true, and_false, false_implies, iff_true]
        apply reported_of_not_done hport
        · simp [hspin]
        · simp [hspin]
  · have hpanic : (order.code clock).outcome = .fault .panic := by
      rw [code_pll hport htype]
      exact Traced.outcome_bind_of_fault (outcome_sysclkSetPll_of_range hrange port _ clock)
    rw [← and_assoc]
    simp only [hrange, false_and, false_implies, iff_true]
    apply reported_of_not_done hport
    · simp [hpanic]
    · simp [hpanic]

/-- When an order is reported, on every port that is set up. -/
theorem reported_iff (order : ClockOrder) {port : SysclkPort} {clock : ClockState}
    (hport : clock.port? = some port) :
    order.Reported port clock ↔ order.Reportable port clock := by
  unfold Reportable
  cases htype : order.type with
  | internal => exact reported_iff_of_divider hport (by rw [htype]; decide)
  | external => exact reported_iff_of_divider hport (by rw [htype]; decide)
  | pll => exact reported_iff_of_pll hport htype

/-- The internal oscillator, requested at 16 MHz. -/
theorem reported_iff_resetClock :
    (⟨.internal, 16000000, true, success, success⟩ : ClockOrder).Reported
      ⟨0, 16000000, 0x10008000, 0x1000, .external⟩ resetClock :=
  (reported_iff _ (by decide)).mpr ⟨by decide, .inl (by decide)⟩

/-- A request for zero hertz divides by zero, and one for 100 MHz, whose divider is refused,
turns the recorded mode from external to internal. -/
theorem not_reported :
    ((⟨.internal, 0, true, success, success⟩ : ClockOrder).code resetClock).outcome =
        .fault .divideByZero ∧
      ¬ (⟨.internal, 100000000, true, success, success⟩ : ClockOrder).Reported
        ⟨0, 16000000, 0x10008000, 0x1000, .external⟩
        { resetClock with clkType := .external } := by
  constructor
  · apply outcome_code_of_clk_eq_zero
    · exact show resetClock.port? = some ⟨0, 16000000, 0x10008000, 0x1000, .external⟩ by decide
    · decide
    · rfl
  · rw [reported_iff_of_divider (by decide) (by decide)]
    rintro ⟨_, hfits | hunseen⟩
    · exact absurd hfits (by decide)
    · exact hunseen.1 rfl

end ClockOrder

end Cyancore.Driver
