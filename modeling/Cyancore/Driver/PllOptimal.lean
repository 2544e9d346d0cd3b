/-
# The PLL configuration is the nearest one

The four loops of `pll_config_for_nearest_freq` scan the settings of the dividers and keep
the one whose output is nearest to the requested frequency.  `prci_pll_get_clk` computes
the output once more, from the stored dividers and by a formula of its own; it arrives at
the frequency that the search has judged, and so at the nearest one.
-/

import Cyancore.Driver.PllSearch
import Cyancore.Math.RunningBest

namespace Cyancore.Driver

open Cyancore.Math StatusCode

variable {base clk ri fi qi ni pllout vco refr : ℕ}

/-! ## What the dividers can give -/

/-- The frequency of the oscillator of the PLL. -/
def pllVco (base r f : ℕ) : ℕ := base / (r + 1) * (2 * (f + 1))

/-- The frequency of the PLL before its output divider. -/
def pllOut (base r f q : ℕ) : ℕ := pllVco base r f / 2 ^ q

/-- Dividers in range that keep REFR, VCO and PLLOUT within their limits. -/
structure LegalDividers (base r f q : ℕ) : Prop where
  r_lt : r < 8
  f_lt : f < 64
  one_le_q : 1 ≤ q
  q_lt : q < 4
  refr : minRefr ≤ base / (r + 1) ∧ base / (r + 1) ≤ maxRefr
  vco : minVco ≤ pllVco base r f ∧ pllVco base r f ≤ maxVco
  pllout : minPllo ≤ pllOut base r f q ∧ pllOut base r f q ≤ maxPllo

/-- The PLL can give this frequency, with its output divider off or set to some `n`. -/
def PllReaches (base freq : ℕ) : Prop :=
  ∃ r f q, LegalDividers base r f q ∧
    (freq = pllOut base r f q ∨ ∃ n < 64, freq = pllOut base r f q / (2 * (n + 1)))

/-- How far two frequencies are apart. -/
def distance (clk freq : ℕ) : ℕ := ((clk : ℤ) - freq).natAbs

/-- On frequencies that fit an `int` the unsigned difference is the distance. -/
theorem absDiff_eq_distance {freq : ℕ} (hclk : clk < 2 ^ 31) (hfreq : freq < 2 ^ 31) :
    absDiff clk freq = distance clk freq := by
  simp only [absDiff, distance]
  split <;> omega

/-! ## The candidates -/

/-- What a turn of the inner loop compares with the nearest setting so far. -/
def pllCandidate (clk ri fi qi pllout ni : ℕ) : PllSearch :=
  let n := 2 * (ni + 1)
  let diffDiv := absDiff clk (pllout / n)
  let diffNodiv := absDiff clk pllout
  let diff := if diffDiv < diffNodiv then diffDiv else diffNodiv
  let div := if diffDiv < diffNodiv then n else 1
  ⟨diff, ⟨true, ri, fi, qi, div > 1, ni⟩⟩

/-- The candidates of the whole search. -/
def pllCandidates (base clk : ℕ) : Set PllSearch :=
  {candidate | ∃ r f q n, LegalDividers base r f q ∧ n < 64 ∧
    candidate = pllCandidate clk r f q (pllOut base r f q) n}

theorem keepsBest_pllTryDivider (search : PllSearch) (ni : ℕ) :
    KeepsBest PllSearch.nearest {pllCandidate clk ri fi qi pllout ni} search
      (pllTryDivider clk ri fi qi pllout search ni) :=
  KeepsBest.single (pllCandidate clk ri fi qi pllout ni) search

/-- A frequency that the search passes over. -/
def OutOf (least most freq : ℕ) : Prop := freq < least ∨ most < freq

instance (least most freq : ℕ) : Decidable (OutOf least most freq) :=
  inferInstanceAs (Decidable (freq < least ∨ most < freq))

theorem not_outOf_iff {least most freq : ℕ} :
    ¬ OutOf least most freq ↔ least ≤ freq ∧ freq ≤ most := by
  rw [OutOf, not_or, not_lt, not_lt]

theorem keepsBest_pllTryOutput (search : PllSearch) (qi : ℕ) :
    KeepsBest PllSearch.nearest
      {candidate | ¬ OutOf minPllo maxPllo (vco / 2 ^ qi) ∧
        ∃ ni ∈ List.range 64, candidate = pllCandidate clk ri fi qi (vco / 2 ^ qi) ni}
      search (pllTryOutput clk ri fi vco search qi) :=
  (KeepsBest.foldl keepsBest_pllTryDivider _ search).skip

theorem keepsBest_pllTryMultiplier (search : PllSearch) (fi : ℕ) :
    KeepsBest PllSearch.nearest
      {candidate | ¬ OutOf minVco maxVco (refr * (2 * (fi + 1))) ∧
        ∃ qi ∈ List.range' 1 3, ¬ OutOf minPllo maxPllo (refr * (2 * (fi + 1)) / 2 ^ qi) ∧
          ∃ ni ∈ List.range 64,
            candidate = pllCandidate clk ri fi qi (refr * (2 * (fi + 1)) / 2 ^ qi) ni}
      search (pllTryMultiplier clk ri refr search fi) :=
  (KeepsBest.foldl keepsBest_pllTryOutput _ search).skip

theorem keepsBest_pllTryReference (search : PllSearch) (ri : ℕ) :
    KeepsBest PllSearch.nearest
      {candidate | ¬ OutOf minRefr maxRefr (base / (ri + 1)) ∧
        ∃ fi ∈ List.range 64, ¬ OutOf minVco maxVco (pllVco base ri fi) ∧
          ∃ qi ∈ List.range' 1 3, ¬ OutOf minPllo maxPllo (pllOut base ri fi qi) ∧
            ∃ ni ∈ List.range 64,
              candidate = pllCandidate clk ri fi qi (pllOut base ri fi qi) ni}
      search (pllTryReference base clk search ri) :=
  (KeepsBest.foldl keepsBest_pllTryMultiplier _ search).skip

/-- The four loops together scan the legal settings. -/
theorem keepsBest_pllSearch (base clk : ℕ) :
    KeepsBest PllSearch.nearest (pllCandidates base clk) .start
      ((List.range 8).foldl (pllTryReference base clk) .start) := by
  have hscan := KeepsBest.foldl (@keepsBest_pllTryReference base clk) (List.range 8) .start
  convert hscan using 1
  ext candidate
  simp only [pllCandidates, Set.mem_ofPred_eq, not_outOf_iff, List.mem_range, List.mem_range'_1]
  constructor
  · rintro ⟨r, f, q, n, hlegal, hn, rfl⟩
    exact ⟨r, hlegal.r_lt, hlegal.refr, f, hlegal.f_lt, hlegal.vco, q,
      ⟨hlegal.one_le_q, hlegal.q_lt⟩, hlegal.pllout, n, hn, rfl⟩
  · rintro ⟨r, hr, hrefr, f, hf, hvco, q, ⟨hq, hq'⟩, hout, n, hn, rfl⟩
    exact ⟨r, f, q, n, ⟨hr, hf, hq, hq', hrefr, hvco, hout⟩, hn, rfl⟩

/-! ## The frequency of a candidate -/

/-- The frequency that `prci_pll_get_clk` computes from a configuration. -/
def PllConfig.output (base : ℕ) (conf : PllConfig) : ℕ :=
  let pllout := base / (conf.r + 1) * (2 * (conf.f + 1)) % 2 ^ 32 / 2 ^ conf.q
  if conf.diven then pllout / (2 * (conf.n + 1)) else pllout

/-- `prci_pll_get_clk` succeeds once a configuration was found, and changes nothing. -/
theorem prciPllGetClk_of_found (port : SysclkPort) (old : ℕ) {clock : ClockState}
    (hfound : clock.pllc.found = true) :
    (prciPllGetClk port old clock).outcome =
      .done ((success, clock.pllc.output port.baseClk), clock) := by
  simp only [prciPllGetClk, Traced.bind, bind, Traced.read, hfound, PllConfig.output,
    Bool.not_true, Bool.false_eq_true, if_false]
  split
  · rfl
  · rfl

/-- The products of a legal setting fit a word. -/
theorem mul_lt_of_refr_le {f : ℕ} (hrefr : refr ≤ maxRefr) (hf : f < 64) :
    refr * (2 * (f + 1)) < 2 ^ 32 := by
  have hmul : refr * (2 * (f + 1)) ≤ 12000000 * 128 := Nat.mul_le_mul hrefr (by omega)
  exact lt_of_le_of_lt hmul (by decide)

section Legal

variable {r f q n : ℕ} (hlegal : LegalDividers base r f q)

include hlegal

theorem LegalDividers.vco_lt : pllVco base r f < 2 ^ 32 :=
  mul_lt_of_refr_le hlegal.refr.2 hlegal.f_lt

/-- Every output of a legal setting fits an `int`. -/
theorem LegalDividers.div_lt (n : ℕ) : pllOut base r f q / n < 2 ^ 31 := by
  have hout : pllOut base r f q ≤ 384000000 := hlegal.pllout.2
  exact lt_of_le_of_lt ((Nat.div_le_self _ _).trans hout) (by decide)

/-- The read-back of a candidate is the frequency that was compared. -/
theorem output_pllCandidate (clk n : ℕ) :
    (pllCandidate clk r f q (pllOut base r f q) n).config.output base =
      if absDiff clk (pllOut base r f q / (2 * (n + 1))) < absDiff clk (pllOut base r f q)
      then pllOut base r f q / (2 * (n + 1)) else pllOut base r f q := by
  have hvco : base / (r + 1) * (2 * (f + 1)) % 2 ^ 32 = pllVco base r f :=
    Nat.mod_eq_of_lt hlegal.vco_lt
  by_cases hdiff : absDiff clk (pllOut base r f q / (2 * (n + 1))) <
      absDiff clk (pllOut base r f q)
  · have hn : 2 * (n + 1) > 1 := by omega
    simp only [pllCandidate, PllConfig.output, if_pos hdiff, hvco, hn, decide_true, if_true]
    rfl
  · simp only [pllCandidate, PllConfig.output, if_neg hdiff, hvco, gt_iff_lt, lt_irrefl,
      decide_false, Bool.false_eq_true, if_false]
    rfl

/-- The difference that was compared is its distance from the request. -/
theorem nearest_pllCandidate (hclk : clk ≤ maxPllOut) (n : ℕ) :
    (pllCandidate clk r f q (pllOut base r f q) n).nearest =
      distance clk ((pllCandidate clk r f q (pllOut base r f q) n).config.output base) := by
  have hclk' : clk < 2 ^ 31 := lt_of_le_of_lt hclk (by decide)
  have hout : pllOut base r f q < 2 ^ 31 := by simpa using hlegal.div_lt 1
  rw [output_pllCandidate hlegal]
  split
  case isTrue hdiff =>
      rw [← absDiff_eq_distance hclk' (hlegal.div_lt _), pllCandidate]
      exact if_pos hdiff
  case isFalse hdiff =>
      rw [← absDiff_eq_distance hclk' hout, pllCandidate]
      exact if_neg hdiff

/-- It is the smaller one of the two that the setting offers. -/
theorem nearest_pllCandidate_le (hclk : clk ≤ maxPllOut) (n : ℕ) :
    (pllCandidate clk r f q (pllOut base r f q) n).nearest ≤ distance clk (pllOut base r f q) ∧
      (pllCandidate clk r f q (pllOut base r f q) n).nearest ≤
        distance clk (pllOut base r f q / (2 * (n + 1))) := by
  have hclk' : clk < 2 ^ 31 := lt_of_le_of_lt hclk (by decide)
  have hout : pllOut base r f q < 2 ^ 31 := by simpa using hlegal.div_lt 1
  rw [← absDiff_eq_distance hclk' hout, ← absDiff_eq_distance hclk' (hlegal.div_lt _)]
  simp only [pllCandidate]
  split
  case isTrue hdiff => exact ⟨hdiff.le, le_rfl⟩
  case isFalse hdiff => exact ⟨le_rfl, not_lt.mp hdiff⟩

/-- Halved, every legal output is nearer to the request than the search asks for. -/
theorem nearest_pllCandidate_lt (hclk : minPllOut ≤ clk) (hclk' : clk ≤ maxPllOut) :
    (pllCandidate clk r f q (pllOut base r f q) 0).nearest < PllSearch.start.nearest := by
  have hhalf := (nearest_pllCandidate_le hlegal hclk' 0).2
  obtain ⟨hout, hout'⟩ := hlegal.pllout
  refine lt_of_le_of_lt hhalf ?_
  simp only [distance, PllSearch.start, minPllOut, maxPllOut, minPllo, maxPllo] at *
  omega

end Legal

/-! ## The search -/

/-- A legal setting is found if there is one. -/
theorem pllSearch_mem_candidates (hclk : minPllOut ≤ clk) (hclk' : clk ≤ maxPllOut)
    (hlegal : ∃ r f q, LegalDividers base r f q) :
    (List.range 8).foldl (pllTryReference base clk) .start ∈ pllCandidates base clk := by
  obtain ⟨r, f, q, hlegal⟩ := hlegal
  exact (keepsBest_pllSearch base clk).mem_of_lt ⟨r, f, q, 0, hlegal, by decide, rfl⟩
    (nearest_pllCandidate_lt hlegal hclk hclk')

/-- And without one nothing is found. -/
theorem exists_legal_of_found (hfound : (pllConfigForNearestFreq base clk).found = true) :
    ∃ r f q, LegalDividers base r f q := by
  rcases (keepsBest_pllSearch base clk).origin with hstart | ⟨r, f, q, n, hlegal, -⟩
  · rw [pllConfigForNearestFreq, hstart] at hfound
    cases hfound
  · exact ⟨r, f, q, hlegal⟩

/-- What was found reads back as a frequency of the PLL, and none is nearer. -/
theorem nearest_of_found (hclk : minPllOut ≤ clk) (hclk' : clk ≤ maxPllOut)
    (hfound : (pllConfigForNearestFreq base clk).found = true) :
    PllReaches base ((pllConfigForNearestFreq base clk).output base) ∧
      ∀ freq, PllReaches base freq →
        distance clk ((pllConfigForNearestFreq base clk).output base) ≤ distance clk freq := by
  have hmem := pllSearch_mem_candidates hclk hclk' (exists_legal_of_found hfound)
  have hbest := (keepsBest_pllSearch base clk).le
  rw [pllConfigForNearestFreq]
  generalize (List.range 8).foldl (pllTryReference base clk) .start = found at hmem hbest
  obtain ⟨r, f, q, n, hlegal, hn, rfl⟩ := hmem
  rw [nearest_pllCandidate hlegal hclk'] at hbest
  constructor
  · refine ⟨r, f, q, hlegal, ?_⟩
    rw [output_pllCandidate hlegal]
    split
    · exact .inr ⟨n, hn, rfl⟩
    · exact .inl rfl
  · rintro _ ⟨r', f', q', hlegal', rfl | ⟨n', hn', rfl⟩⟩
    · exact (hbest _ ⟨r', f', q', 0, hlegal', by decide, rfl⟩).trans
        (nearest_pllCandidate_le hlegal' hclk' 0).1
    · exact (hbest _ ⟨r', f', q', n', hlegal', hn', rfl⟩).trans
        (nearest_pllCandidate_le hlegal' hclk' n').2

/-- For every crystal and every frequency that may be requested, a configuration is found exactly
when there is a legal one, the products of the search fit a word, and the clock that is read back
is a frequency of the PLL that no other comes nearer than. -/
theorem pllConfig_optimal (hclk : minPllOut ≤ clk) (hclk' : clk ≤ maxPllOut) :
    ((pllConfigForNearestFreq base clk).found = true ↔ ∃ r f q, LegalDividers base r f q) ∧
      (∀ r < 8, ¬ OutOf minRefr maxRefr (base / (r + 1)) → ∀ f < 64, pllVco base r f < 2 ^ 32) ∧
      ∀ (port : SysclkPort) (old : ℕ) (clock : ClockState), port.baseClk = base →
        clock.pllc = pllConfigForNearestFreq base clk → clock.pllc.found = true →
          ∃ freq, (prciPllGetClk port old clock).outcome = .done ((success, freq), clock) ∧
            PllReaches base freq ∧
            ∀ other, PllReaches base other → distance clk freq ≤ distance clk other := by
  refine ⟨⟨exists_legal_of_found, fun hlegal => ?_⟩, ?_, ?_⟩
  · obtain ⟨r, f, q, n, -, -, hfound⟩ := pllSearch_mem_candidates hclk hclk' hlegal
    rw [pllConfigForNearestFreq, hfound]
    rfl
  · intro r _ hrefr f hf
    exact mul_lt_of_refr_le (not_outOf_iff.mp hrefr).2 hf
  · rintro port old clock rfl hconf hfound
    obtain ⟨hreaches, hnearest⟩ := nearest_of_found hclk hclk' (hconf ▸ hfound)
    refine ⟨_, prciPllGetClk_of_found port old hfound, ?_⟩
    rw [hconf]
    exact ⟨hreaches, hnearest⟩

/-! ## A crystal of 16 MHz -/

/-- A port with a crystal of 16 MHz. -/
def crystalPort : SysclkPort := ⟨0, 16000000, 0x10008000, 0x1000, .external⟩

/-- The clock after a search for 320 MHz. -/
def tunedClock : ClockState where
  prci := ⟨0xc0000000, 0xc0000000, 0x00060000, 0⟩
  sysclk := some crystalPort
  clkType := .pll
  pllc := pllConfigForNearestFreq 16000000 320000000
  ledger := ⟨0, false, none, none⟩

/-- The crystal divided by 2, multiplied by 80 and divided by 2. -/
theorem legalDividers_crystal : LegalDividers 16000000 1 39 1 where
  r_lt := by decide
  f_lt := by decide
  one_le_q := by decide
  q_lt := by decide
  refr := by decide
  vco := by decide
  pllout := by decide

/-- As 320 MHz can be had, it is what reads back. -/
theorem pllConfig_optimal_tuned :
    (prciPllGetClk crystalPort 0 tunedClock).outcome =
      .done ((success, 320000000), tunedClock) := by
  obtain ⟨hfound, -, hread⟩ :=
    @pllConfig_optimal 16000000 320000000 (by decide) (by decide)
  have hconf : tunedClock.pllc = pllConfigForNearestFreq 16000000 320000000 := by
    simp only [tunedClock]
  obtain ⟨freq, hreturns, -, hnearest⟩ := hread crystalPort 0 tunedClock rfl hconf
    (hconf ▸ hfound.mpr ⟨1, 39, 1, legalDividers_crystal⟩)
  have hout : 320000000 = pllOut 16000000 1 39 1 := by simp [pllOut, pllVco]
  have hexact := hnearest 320000000 ⟨1, 39, 1, legalDividers_crystal, .inl hout⟩
  have hfreq : freq = 320000000 := by
    simp only [distance] at hexact
    omega
  rw [hreturns, hfreq]

end Cyancore.Driver
