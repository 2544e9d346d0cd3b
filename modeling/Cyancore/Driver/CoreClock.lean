/-
# What the core runs from while its clock is changed

Two things can go wrong during a change: the core is left without an oscillator, or it is
put on a PLL that no one has configured.  Both are asked after every single store.  The
first never happens.  The second happens when the PLL is selected before it is bypassed,
which two of the sequences do, and when the search finds nothing and the sequence goes on.
-/

import Cyancore.Driver.ClockTree
import Cyancore.Driver.PllSearch

namespace Cyancore.Driver

open Cyancore.Math TransitionSystem

/-- What holds along the moves of a request holds after each of its stores. -/
theorem tree_of_mem_serve {request : ClockRequest} {clock clock' : ClockState}
    {inv : ClockTree → Prop}
    (halong : Along inv ClockTree.act (request.moves clock) (clock.open request).tree)
    (hmem : clock' ∈ (serve request clock).trace) : inv clock'.tree :=
  (serve_performs clock request).trace halong hmem

/-- What holds at the start and along the moves holds after the request. -/
theorem tree_of_clockNext {request : ClockRequest} {clock clock' : ClockState}
    {inv : ClockTree → Prop}
    (halong : Along inv ClockTree.act (request.moves clock) (clock.open request).tree)
    (hstart : inv (clock.open request).tree) (hnext : clockNext request clock = some clock') :
    inv clock'.tree := by
  unfold clockNext at hnext
  cases hend : (serve request clock).outcome with
  | done result =>
      obtain ⟨value, after⟩ := result
      rw [hend] at hnext
      cases hnext
      exact (serve_performs clock request).outcome halong hstart hend
  | fault error => simp [hend] at hnext
  | spin => simp [hend] at hnext

/-! ## The core is never without an oscillator -/

/-- The oscillator that feeds `hfclk` is enabled: the crystal if the PLL is selected and
takes it as reference, the internal oscillator otherwise. -/
def Prci.hfclkFed (prci : Prci) : Bool :=
  if prci.pllcfg.getLsbD Prci.pllsel && prci.pllcfg.getLsbD Prci.pllrefsel then
    prci.hfxosccfg.getLsbD Prci.hfxosen
  else
    prci.hfrosccfg.getLsbD Prci.hfrosen

/-- The same of the bits. -/
def ClockTree.Fed (tree : ClockTree) : Prop :=
  (if tree.pllsel && tree.refsel then tree.xosc else tree.rosc) = true

namespace ClockTree

variable (tree : ClockTree)

@[simp]
theorem settle_rosc : tree.settle.rosc = tree.rosc := by
  unfold settle
  split <;> rfl

@[simp]
theorem settle_xosc : tree.settle.xosc = tree.xosc := by
  unfold settle
  split <;> rfl

@[simp]
theorem settle_pllsel : tree.settle.pllsel = tree.pllsel := by
  unfold settle
  split <;> rfl

@[simp]
theorem settle_refsel : tree.settle.refsel = tree.refsel := by
  unfold settle
  split <;> rfl

variable {tree}

theorem along_fed_crystalMoves (hfed : tree.Fed) : Along Fed act crystalMoves tree := by
  unfold Fed at hfed
  cases hsel : tree.pllsel <;> cases href : tree.refsel <;>
    simp_all [crystalMoves, Along, act, Fed]

theorem along_fed_internalMoves (hfed : tree.Fed) : Along Fed act internalMoves tree := by
  unfold Fed at hfed
  cases hsel : tree.pllsel <;> cases href : tree.refsel <;>
    simp_all [internalMoves, Along, act, Fed]

theorem along_fed_disableMoves (hfed : tree.Fed) : Along Fed act disableMoves tree := by
  unfold Fed at hfed
  cases hsel : tree.pllsel <;> cases href : tree.refsel <;>
    simp_all [disableMoves, Along, act, Fed]

theorem along_fed_pllMoves (slips : Bool) (hfed : tree.Fed) :
    Along Fed act (pllMoves slips) tree := by
  unfold Fed at hfed
  cases slips <;> cases hsel : tree.pllsel <;> cases href : tree.refsel <;>
    simp_all [pllMoves, setClkMoves, Along, act, Fed]

/-- No request cuts the core off, whatever the port. -/
theorem along_fed_moves (request : ClockRequest) (clock : ClockState) (hfed : tree.Fed) :
    Along Fed act (request.moves clock) tree := by
  unfold ClockRequest.moves
  cases clock.port? with
  | none => trivial
  | some port =>
      cases request with
      | setup _ => trivial
      | reset => exact along_fed_crystalMoves hfed
      | disable => exact along_fed_disableMoves hfed
      | config a0 a1 lockClears before after =>
          simp only [ClockRequest.portMoves]
          cases ClockType.ofArg? a0 with
          | none => trivial
          | some type =>
              cases type with
              | internal => exact along_fed_internalMoves hfed
              | external =>
                  have hinternal := along_fed_internalMoves hfed
                  apply along_append.mpr ⟨hinternal, _⟩
                  exact along_fed_crystalMoves (hinternal.arrive hfed)
              | pll => exact along_fed_pllMoves _ hfed

end ClockTree

/-- After reset the internal oscillator is on and the PLL is not selected. -/
def fe310Reset (clock : ClockState) : Prop :=
  clock.prci.hfrosccfg.getLsbD Prci.hfrosen = true ∧
    clock.prci.pllcfg.getLsbD Prci.pllsel = false

/-- The core is fed after every request. -/
theorem fed_of_reachable {guard : ClockRequest → ClockState → Prop} {clock : ClockState}
    (hreach : Reachable (clockSystem fe310Reset) guard clock) : clock.tree.Fed := by
  apply hreach.invariant (fun clock => clock.tree.Fed)
  · intro clock hinit
    simp [ClockTree.Fed, ClockState.tree, hinit.1, hinit.2]
  · intro request clock clock' hfed _ hnext
    exact tree_of_clockNext (ClockTree.along_fed_moves request clock hfed) hfed hnext

/-- The core is fed after every store that any request makes, in every run. -/
theorem hfclkFed_of_mem_trace {clock : ClockState}
    (hreach : Reachable (clockSystem fe310Reset) (fun _ _ => True) clock)
    (request : ClockRequest) :
    ∀ clock' ∈ (serve request clock).trace, clock'.prci.hfclkFed = true := by
  intro clock' hmem
  have hfed := fed_of_reachable hreach
  exact tree_of_mem_serve (ClockTree.along_fed_moves request clock hfed) hmem

/-- A block after reset, with a port. -/
def resetClock : ClockState where
  prci := ⟨0xc0000000, 0xc0000000, 0x00060000, 0⟩
  sysclk := some ⟨0, 16000000, 0x10008000, 0x1000, .external⟩
  clkType := .internal
  pllc := ⟨false, 0, 0, 0, false, 0⟩
  ledger := ⟨0, false, none, none⟩

/-- A run of one request, which comes to six stores. -/
theorem hfclkFed_resetClock :
    (serve .reset resetClock).trace.length = 6 ∧
      ∀ clock' ∈ (serve .reset resetClock).trace, clock'.prci.hfclkFed = true :=
  ⟨by decide, hfclkFed_of_mem_trace (.start ⟨by decide, by decide⟩) .reset⟩

/-! ## The core is put on a PLL that no one configured -/

/-- Where the core runs from the PLL, the divider fields are those of the request in force. -/
def ClockState.pllConfigured (clock : ClockState) : Bool :=
  !clock.onPll ||
    clock.ledger.inForce.isSome && clock.ledger.dividersOf == clock.ledger.inForce

/-- The same of the bits. -/
def ClockTree.Configured (tree : ClockTree) : Prop :=
  (!tree.onPll || tree.ledger.inForce.isSome && tree.ledger.dividersOf == tree.ledger.inForce)
    = true

/-- A run starts behind the bypass, with the divider fields written by no request. -/
def bypassed (clock : ClockState) : Prop :=
  clock.prci.pllcfg.getLsbD Prci.pllbypass = true ∧ clock.ledger = ⟨0, false, none, none⟩

/-- A reset, or a change of the clock. -/
def ClockRequest.isResetOrConfig : ClockRequest → Bool
  | .reset => true
  | .config _ _ _ _ _ => true
  | _ => false

/-- When a request keeps the core off an unconfigured PLL: a reset needs the bypass or the
PLL already selected, the crystal is never requested, and the PLL is requested for a
crystal that the search can serve, unless the request is refused or never returns. -/
def ClockRequest.Sound (request : ClockRequest) (clock : ClockState) : Prop :=
  ∀ port, clock.port? = some port →
    match request with
    | .setup _ => True
    | .disable => True
    | .reset =>
        clock.prci.pllcfg.getLsbD Prci.pllbypass = true ∨
          clock.prci.pllcfg.getLsbD Prci.pllsel = true
    | .config a0 a1 lockClears _ _ =>
        ClockType.ofArg? a0 ≠ some .external ∧
          (ClockType.ofArg? a0 = some .pll → minPllOut ≤ a1 → a1 ≤ maxPllOut → lockClears = true →
            6000000 ≤ port.baseClk ∧ port.baseClk ≤ 96000007)

namespace ClockTree

variable {tree : ClockTree}

theorem along_configured_crystalMoves (hready : tree.bypass = true ∨ tree.pllsel = true)
    (hconf : tree.Configured) : Along Configured act crystalMoves tree := by
  obtain ⟨rosc, xosc, sel, ref, byp, ledger⟩ := tree
  cases sel <;> cases byp <;>
    simp_all [Configured, crystalMoves, Along, act, settle, onPll]

theorem along_configured_internalMoves (hconf : tree.Configured) :
    Along Configured act internalMoves tree := by
  obtain ⟨rosc, xosc, sel, ref, byp, ledger⟩ := tree
  cases sel <;> cases byp <;>
    simp_all [Configured, internalMoves, Along, act, settle, onPll]

theorem along_configured_disableMoves (hconf : tree.Configured) :
    Along Configured act disableMoves tree := by
  obtain ⟨rosc, xosc, sel, ref, byp, ledger⟩ := tree
  cases sel <;> cases byp <;>
    simp_all [Configured, disableMoves, Along, act, settle, onPll]

theorem along_configured_pllMoves (hwants : tree.ledger.wantsPll = true)
    (hconf : tree.Configured) : Along Configured act (pllMoves false) tree := by
  obtain ⟨rosc, xosc, sel, ref, byp, ledger⟩ := tree
  cases sel <;> cases byp <;>
    simp_all [Configured, pllMoves, setClkMoves, Along, act, settle, onPll]

/-- A sound request keeps the core off an unconfigured PLL. -/
theorem along_configured_moves {request : ClockRequest} {clock : ClockState}
    (hsound : request.Sound clock) (hconf : clock.tree.Configured) :
    Along Configured act (request.moves clock) (clock.open request).tree := by
  have hopen : (clock.open request).tree.Configured := hconf
  unfold ClockRequest.moves
  cases hport : clock.port? with
  | none => trivial
  | some port =>
      have hrequest := hsound port hport
      cases request with
      | setup _ => trivial
      | disable => exact along_configured_disableMoves hopen
      | reset => exact along_configured_crystalMoves hrequest hopen
      | config a0 a1 lockClears before after =>
          simp only [ClockRequest.portMoves]
          cases htype : ClockType.ofArg? a0 with
          | none => trivial
          | some type =>
              cases type with
              | internal => exact along_configured_internalMoves hopen
              | external => exact absurd htype hrequest.1
              | pll =>
                  have hslips : slipsThrough port a1 lockClears = false := by
                    by_contra hslips
                    simp only [slipsThrough, Bool.not_eq_false, Bool.and_eq_true,
                      decide_eq_true_eq, Bool.not_eq_true'] at hslips
                    obtain ⟨⟨⟨hmin, hmax⟩, hlock⟩, hfound⟩ := hslips
                    have hbase := hrequest.2 htype hmin hmax hlock
                    rw [(found_pllConfigForNearestFreq_iff hmin hmax).mpr hbase] at hfound
                    cases hfound
                  rw [hslips]
                  apply along_configured_pllMoves _ hopen
                  simp [ClockState.tree, ClockState.open, ClockRequest.wantsPll, htype]

end ClockTree

/-- The dividers are those of the request in force after every request. -/
theorem configured_of_reachable {clock : ClockState}
    (hreach : Reachable (clockSystem bypassed) ClockRequest.Sound clock) :
    clock.tree.Configured := by
  apply hreach.invariant (fun clock => clock.tree.Configured)
  · intro clock hinit
    simp [ClockTree.Configured, ClockTree.onPll, ClockState.tree, hinit.1]
  · intro request clock clock' hconf hsound hnext
    exact tree_of_clockNext (ClockTree.along_configured_moves hsound hconf) hconf hnext

/-- In a run of sound requests the core never runs from a PLL that was not configured for
the request in force, after any store. -/
theorem pllConfigured_of_mem_trace {clock : ClockState} {request : ClockRequest}
    (hreach : Reachable (clockSystem bypassed) ClockRequest.Sound clock)
    (hsound : request.Sound clock) :
    ∀ clock' ∈ (serve request clock).trace, clock'.pllConfigured = true := by
  intro clock' hmem
  have hconf := configured_of_reachable hreach
  exact tree_of_mem_serve (ClockTree.along_configured_moves hsound hconf) hmem

/-- The PLL, requested for a crystal of 16 MHz. -/
theorem pllConfigured_resetClock :
    (serve (.config 2 64000000 true 0 0) resetClock).trace.all ClockState.pllConfigured =
      true := by
  rw [List.all_eq_true]
  apply pllConfigured_of_mem_trace (.start ⟨by decide, rfl⟩)
  intro port hport
  cases hport
  exact ⟨by decide, fun _ _ _ _ => by decide⟩

/-- The crystal, requested from behind the bypass, puts the core on a PLL that nobody
configured: the fourth store of `sysclk_set_external` comes before the fifth. -/
theorem not_pllConfigured_of_external :
    ¬ ∀ (clock : ClockState) (request : ClockRequest),
      Reachable (clockSystem bypassed) (fun request _ => request.isResetOrConfig = true) clock →
        request.isResetOrConfig = true →
          ∀ clock' ∈ (serve request clock).trace, clock'.pllConfigured = true := by
  intro hclaim
  have hall := hclaim resetClock (.config 1 16000000 true 0 0) (.start ⟨by decide, rfl⟩) rfl
  revert hall
  decide

end Cyancore.Driver
