/-
# What the core runs from

Five register bits decide where `hfclk` comes from: the enable bits of the two
oscillators and the select, reference and bypass bits of the PLL.  Together with the
observer's ledger they are all that the safety of a clock change depends on.

A store moves one bit, and each function of the HAL is one move.  A request is a list of
moves that depends on no register, which the code performs from any state.
-/

import Cyancore.Driver.SysclkPrci

namespace Cyancore.Driver

open Cyancore.Math Prci

/-- The bits that decide what the core runs from, and the ledger. -/
@[ext]
structure ClockTree where
  rosc : Bool
  xosc : Bool
  pllsel : Bool
  refsel : Bool
  bypass : Bool
  ledger : Ledger

/-- What a store can do to the tree. -/
inductive ClockMove
  | rosc (on : Bool)
  | xosc (on : Bool)
  | pllsel (on : Bool)
  | refsel (on : Bool)
  | bypass (on : Bool)
  | /-- Something else is written. -/
    other
  | /-- The divider fields are written. -/
    dividers
  deriving DecidableEq, Repr

namespace ClockTree

/-- The core runs from the output of the PLL. -/
def onPll (tree : ClockTree) : Bool := tree.pllsel && !tree.bypass

/-- The observer's note after a store. -/
def settle (tree : ClockTree) : ClockTree :=
  if tree.onPll then tree
  else { tree with ledger.inForce :=
    if tree.ledger.wantsPll then some tree.ledger.serving else none }

/-- A move, and the note of it. -/
def act : ClockMove → ClockTree → ClockTree
  | .rosc on, tree => { tree with rosc := on }.settle
  | .xosc on, tree => { tree with xosc := on }.settle
  | .pllsel on, tree => { tree with pllsel := on }.settle
  | .refsel on, tree => { tree with refsel := on }.settle
  | .bypass on, tree => { tree with bypass := on }.settle
  | .other, tree => tree.settle
  | .dividers, tree => { tree with ledger.dividersOf := some tree.ledger.serving }.settle

end ClockTree

/-- The bits as the registers have them. -/
def ClockState.tree (clock : ClockState) : ClockTree where
  rosc := clock.prci.hfrosccfg.getLsbD hfrosen
  xosc := clock.prci.hfxosccfg.getLsbD hfxosen
  pllsel := clock.prci.pllcfg.getLsbD pllsel
  refsel := clock.prci.pllcfg.getLsbD pllrefsel
  bypass := clock.prci.pllcfg.getLsbD pllbypass
  ledger := clock.ledger

theorem ClockState.settle_tree (clock : ClockState) : clock.settle.tree = clock.tree.settle := by
  unfold ClockState.settle ClockTree.settle
  by_cases hon : clock.onPll = true
  · rw [if_pos hon, if_pos (show clock.tree.onPll = true from hon)]
  · rw [if_neg hon, if_neg (show ¬ clock.tree.onPll = true from hon)]
    rfl

/-! ## The moves of the HAL -/

/-- From `clock` the code makes the moves, as far as it gets. -/
abbrev Moves {α : Type} (moves : List ClockMove) (code : ClockOp α) (clock : ClockState) : Prop :=
  code.Performs ClockState.tree ClockTree.act moves clock

theorem moves_storePrci {f : Prci → Prci} {move : ClockMove} {clock : ClockState}
    (hact : { clock with prci := f clock.prci }.tree.settle = ClockTree.act move clock.tree) :
    Moves [move] (storePrci f) clock := by
  apply Traced.Performs.store
  rw [ClockState.settle_tree]
  exact hact

/-- A wait moves nothing, however it ends. -/
theorem moves_waitUntil (ready : Prci → Bool) (clock : ClockState) :
    Moves [] (waitUntil ready) clock := by
  apply Traced.Performs.skip (.read _ clock)
  intro value clock'
  cases value with
  | true => exact .pure _ clock'
  | false => exact .hang clock'

/-- The choice of a status moves nothing. -/
theorem moves_status (test : Prci → Bool) (yes no : StatusCode) (clock : ClockState) :
    Moves [] (do if ← readPrci test then return yes else return no) clock := by
  apply Traced.Performs.skip (.read _ clock)
  intro value clock'
  cases value with
  | true => exact .pure _ clock'
  | false => exact .pure _ clock'

@[simp]
theorem readOsc_en (word : BitVec 32) : (readOsc word 30 31)[30] = word[30] := by
  unfold readOsc
  split
  · simp
  · simp

variable (clock : ClockState)

theorem moves_prciHfxocsEnable : Moves [.xosc true] prciHfxocsEnable clock := by
  apply Traced.Performs.cons
  · apply moves_storePrci
    rw [ClockTree.act]
    simp [ClockState.tree, hfxosen]
  · intro _ clock
    exact (moves_waitUntil _ clock).skip fun _ => moves_status _ _ _

theorem moves_prciHfxocsDisable : Moves [.xosc false] prciHfxocsDisable clock := by
  apply Traced.Performs.cons
  · apply moves_storePrci
    rw [ClockTree.act]
    simp [ClockState.tree, hfxosen]
  · intro _ clock
    exact moves_status _ _ _ clock

theorem moves_prciHfoscEnable : Moves [.rosc true] prciHfoscEnable clock := by
  apply Traced.Performs.cons
  · apply moves_storePrci
    rw [ClockTree.act]
    simp [ClockState.tree, hfrosen]
  · intro _ clock
    exact (moves_waitUntil _ clock).skip fun _ => moves_status _ _ _

theorem moves_prciHfoscDisable : Moves [.rosc false] prciHfoscDisable clock := by
  apply Traced.Performs.cons
  · apply moves_storePrci
    rw [ClockTree.act]
    simp [ClockState.tree, hfrosen]
  · intro _ clock
    exact moves_status _ _ _ clock

/-- The divider of the internal oscillator is none of the bits. -/
theorem moves_prciHfoscSetClk (clk : ℕ) : Moves [.other] (prciHfoscSetClk clk) clock := by
  unfold prciHfoscSetClk
  split
  · exact .abort _ clock
  · apply Traced.Performs.cons
    · apply moves_storePrci
      rw [ClockTree.act]
      simp [ClockState.tree, readHfrosccfg, hfrosen, hfrosrdy]
    · intro _ clock
      exact (moves_waitUntil _ clock).skip fun _ => moves_status _ _ _

theorem moves_prciPllSelectXosc : Moves [.refsel true] prciPllSelectXosc clock := by
  apply moves_storePrci
  rw [ClockTree.act]
  simp [ClockState.tree, pllsel, pllrefsel, pllbypass]

theorem moves_prciPllSelectRosc : Moves [.refsel false] prciPllSelectRosc clock := by
  apply moves_storePrci
  rw [ClockTree.act]
  simp [ClockState.tree, pllsel, pllrefsel, pllbypass]

theorem moves_prciPllSelectPll : Moves [.pllsel true] prciPllSelectPll clock := by
  apply moves_storePrci
  rw [ClockTree.act]
  simp [ClockState.tree, pllsel, pllrefsel, pllbypass]

theorem moves_prciPllDeselectPll : Moves [.pllsel false] prciPllDeselectPll clock := by
  apply moves_storePrci
  rw [ClockTree.act]
  simp [ClockState.tree, pllsel, pllrefsel, pllbypass]

theorem moves_prciPllBypass : Moves [.bypass true] prciPllBypass clock := by
  apply moves_storePrci
  rw [ClockTree.act]
  simp [ClockState.tree, pllsel, pllrefsel, pllbypass]

theorem moves_prciPllInline : Moves [.bypass false] prciPllInline clock := by
  apply moves_storePrci
  rw [ClockTree.act]
  simp [ClockState.tree, pllsel, pllrefsel, pllbypass]

/-- The divider fields are none of the bits. -/
theorem tree_pllDividers (conf : PllConfig) :
    { clock with prci.pllcfg := pllDividers conf clock.prci.pllcfg }.tree = clock.tree := by
  simp [ClockState.tree, pllDividers, pllf, pllq, pllsel, pllrefsel, pllbypass]

/-- A configuration that was found is written with two stores, the second of which sets
the divider fields; any other is not written. -/
theorem moves_prciPllWriteConfig (conf : PllConfig) :
    Moves (if conf.found then [.other, .dividers] else []) (prciPllWriteConfig conf) clock := by
  have hdividers (clock : ClockState) : Moves [.dividers] (storeDividers fun prci =>
      { prci with pllcfg := pllDividers conf prci.pllcfg }) clock := by
    apply Traced.Performs.store
    rw [ClockState.settle_tree, ClockTree.act, ← tree_pllDividers clock conf]
    rfl
  unfold prciPllWriteConfig
  by_cases hfound : conf.found = true
  · rw [if_pos hfound, if_pos hfound]
    cases conf.diven with
    | true =>
        apply Traced.Performs.cons _ fun _ => hdividers
        exact moves_storePrci rfl
    | false =>
        apply Traced.Performs.cons _ fun _ => hdividers
        exact moves_storePrci rfl
  · rw [if_neg hfound, if_neg hfound]
    exact .pure _ clock

/-! ## The moves of a request -/

/-- `sysclk_reset` and `sysclk_set_external`. -/
def crystalMoves : List ClockMove :=
  [.rosc true, .xosc true, .refsel true, .pllsel true, .bypass true, .rosc false]

/-- `sysclk_set_internal`. -/
def internalMoves : List ClockMove :=
  [.xosc true, .bypass true, .rosc true, .other, .refsel false, .pllsel false, .bypass false,
    .xosc false]

/-- `prci_pll_set_clk` returns without having found a configuration. -/
def slipsThrough (port : SysclkPort) (clk : ℕ) (lockClears : Bool) : Bool :=
  minPllOut ≤ clk && clk ≤ maxPllOut && lockClears
    && !(pllConfigForNearestFreq port.baseClk clk).found

/-- `prci_pll_set_clk`, by whether it returns without a configuration. -/
def setClkMoves (slips : Bool) : List ClockMove := if slips then [] else [.other, .dividers]

/-- `sysclk_set_pll`, by whether `prci_pll_set_clk` returns without a configuration. -/
def pllMoves (slips : Bool) : List ClockMove :=
  [.rosc true, .xosc true, .bypass true, .refsel true] ++ setClkMoves slips
    ++ [.pllsel true, .bypass false, .rosc false]

/-- `sysclk_disable`. -/
def disableMoves : List ClockMove := [.rosc true, .other, .pllsel false, .bypass false]

/-- The port that passes the check at the head of each function. -/
def ClockState.port? (clock : ClockState) : Option SysclkPort :=
  clock.sysclk.filter fun port => port.baddr ≠ 0 ∧ port.baseClk ≠ 0

/-- The moves of a request on a port. -/
def ClockRequest.portMoves (port : SysclkPort) : ClockRequest → List ClockMove
  | .setup _ => []
  | .reset => crystalMoves
  | .config a0 a1 lockClears _ _ =>
      match ClockType.ofArg? a0 with
      | some .internal => internalMoves
      | some .external => internalMoves ++ crystalMoves
      | some .pll => pllMoves (slipsThrough port a1 lockClears)
      | none => []
  | .disable => disableMoves

/-- The moves of a request: none unless there is a port. -/
def ClockRequest.moves (request : ClockRequest) (clock : ClockState) : List ClockMove :=
  match clock.port? with
  | none => []
  | some port => request.portMoves port

theorem moves_sysclkSetInternal (clk : ℕ) : Moves internalMoves (sysclkSetInternal clk) clock :=
  (moves_prciHfxocsEnable clock).cons fun _ clock =>
  (moves_prciPllBypass clock).cons fun _ clock =>
  (moves_prciHfoscEnable clock).cons fun _ clock =>
  (moves_prciHfoscSetClk clock clk).cons fun _ clock =>
  (moves_prciPllSelectRosc clock).cons fun _ clock =>
  (moves_prciPllDeselectPll clock).cons fun _ clock =>
  (moves_prciPllInline clock).cons fun _ clock =>
  (moves_prciHfxocsDisable clock).cons fun _ clock => .pure _ clock

theorem moves_sysclkSetExternal : Moves crystalMoves sysclkSetExternal clock :=
  (moves_prciHfoscEnable clock).cons fun _ clock =>
  (moves_prciHfxocsEnable clock).cons fun _ clock =>
  (moves_prciPllSelectXosc clock).cons fun _ clock =>
  (moves_prciPllSelectPll clock).cons fun _ clock =>
  (moves_prciPllBypass clock).cons fun _ clock =>
  (moves_prciHfoscDisable clock).cons fun _ clock => .pure _ clock

theorem moves_prciPllSetClk (port : SysclkPort) (clk : ℕ) (lockClears : Bool) :
    Moves (setClkMoves (slipsThrough port clk lockClears)) (prciPllSetClk port clk lockClears)
      clock := by
  unfold prciPllSetClk
  by_cases hclk : minPllOut ≤ clk ∧ clk ≤ maxPllOut
  · rw [if_pos hclk]
    apply Traced.Performs.skip (.modify rfl)
    intro _ clock
    have hwrite := moves_prciPllWriteConfig clock (pllConfigForNearestFreq port.baseClk clk)
    unfold slipsThrough setClkMoves
    rw [decide_eq_true hclk.1, decide_eq_true hclk.2]
    cases hfound : (pllConfigForNearestFreq port.baseClk clk).found with
    | true =>
        rw [hfound] at hwrite
        cases lockClears with
        | true => exact hwrite.bind fun _ => .pure _
        | false => exact hwrite.bind fun _ => .hang
    | false =>
        rw [hfound] at hwrite
        cases lockClears with
        | true => exact hwrite.skip fun _ => .pure _
        | false => exact hwrite.skip fun _ => .hang
  · rw [if_neg hclk]
    exact .abort _ clock

theorem moves_sysclkSetPll (port : SysclkPort) (clk : ℕ) (lockClears : Bool) :
    Moves (pllMoves (slipsThrough port clk lockClears)) (sysclkSetPll port clk lockClears) clock :=
  (moves_prciHfoscEnable clock).cons fun _ clock =>
  (moves_prciHfxocsEnable clock).cons fun _ clock =>
  (moves_prciPllBypass clock).cons fun _ clock =>
  (moves_prciPllSelectXosc clock).cons fun _ clock =>
  (moves_prciPllSetClk clock port clk lockClears).bind fun _ clock =>
  (moves_prciPllSelectPll clock).cons fun _ clock =>
  (moves_prciPllInline clock).cons fun _ clock =>
  (moves_prciHfoscDisable clock).cons fun _ clock => .pure _ clock

/-- Behind the check, code moves nothing without a port. -/
theorem moves_withPort {status : StatusCode} {body : SysclkPort → ClockOp StatusCode}
    {moves : SysclkPort → List ClockMove} (clock : ClockState)
    (hbody : ∀ port clock, Moves (moves port) (body port) clock) :
    Moves (match clock.port? with | none => [] | some port => moves port)
      (withPort status body) clock := by
  apply Traced.Performs.ofRead
  unfold ClockState.port?
  cases clock.sysclk with
  | none => exact .pure _ clock
  | some port =>
      rw [Option.filter_some]
      by_cases hport : port.baddr ≠ 0 ∧ port.baseClk ≠ 0
      · simp only [decide_eq_true hport, if_pos hport, if_true]
        exact hbody port clock
      · simp only [decide_eq_false hport, if_neg hport, Bool.false_eq_true, if_false]
        exact .pure _ clock

theorem moves_sysclkReset : Moves (ClockRequest.reset.moves clock) sysclkReset clock :=
  moves_withPort clock fun _ clock =>
  (moves_prciHfoscEnable clock).cons fun _ clock =>
  (moves_prciHfxocsEnable clock).cons fun _ clock =>
  (moves_prciPllSelectXosc clock).cons fun _ clock =>
  (moves_prciPllSelectPll clock).cons fun _ clock =>
  (moves_prciPllBypass clock).cons fun _ clock =>
  (moves_prciHfoscDisable clock).cons fun _ _ =>
  Traced.Performs.skip (.modify rfl) fun _ => .pure _

theorem moves_sysclkDisable : Moves (ClockRequest.disable.moves clock) sysclkDisable clock :=
  moves_withPort clock fun _ clock =>
  (moves_prciHfoscEnable clock).cons fun _ clock =>
  (moves_prciHfoscSetClk clock _).cons fun _ clock =>
  (moves_prciPllDeselectPll clock).cons fun _ clock =>
  (moves_prciPllInline clock).cons fun _ _ =>
  Traced.Performs.skip (.modify rfl) fun _ => .pure _

theorem moves_sysclkConfigureClk (a0 a1 : ℕ) (lockClears : Bool) (before after : StatusCode) :
    Moves ((ClockRequest.config a0 a1 lockClears before after).moves clock)
      (sysclkConfigureClk a0 a1 lockClears before after) clock := by
  apply moves_withPort clock
  intro port clock
  have hend {type : ClockType} {status : StatusCode} (clock : ClockState) :
      Moves [] (do
        Traced.modify fun clock => { clock with clkType := type }
        return status) clock :=
    Traced.Performs.skip (.modify rfl) fun _ => .pure _
  simp only [ClockRequest.portMoves]
  cases ClockType.ofArg? a0 with
  | none => exact .pure _ clock
  | some type =>
      cases type with
      | internal =>
          rw [← List.append_nil internalMoves]
          exact (moves_sysclkSetInternal clock a1).bind fun _ => hend
      | external =>
          rw [← List.append_nil crystalMoves]
          apply (moves_sysclkSetInternal clock a1).bind
          exact fun _ clock => (moves_sysclkSetExternal clock).bind fun _ => hend
      | pll =>
          rw [← List.append_nil (pllMoves _)]
          exact (moves_sysclkSetPll clock port a1 lockClears).bind fun _ => hend

/-- Every request is performed as its moves, whatever it finds in the registers. -/
theorem serve_performs (request : ClockRequest) :
    Moves (request.moves clock) request.code (clock.open request) := by
  have hmoves : request.moves clock = request.moves (clock.open request) := rfl
  rw [hmoves]
  cases request with
  | setup port =>
      have hnone : (ClockRequest.setup port).moves (clock.open (.setup port)) = [] := by
        unfold ClockRequest.moves
        split <;> rfl
      rw [hnone]
      exact Traced.Performs.skip (.modify rfl) fun _ => .pure _
  | reset => exact moves_sysclkReset _
  | config a0 a1 lockClears before after => exact moves_sysclkConfigureClk _ _ _ _ _ _
  | disable => exact moves_sysclkDisable _

end Cyancore.Driver
