/-
# When the search for a PLL configuration succeeds

`pll_config_for_nearest_freq` tries every divider setting and keeps the nearest.  A
setting is tried only if the reference that it gives the PLL lies in a fixed range, and
whether one does is a matter of the frequency of the crystal alone.
-/

import Cyancore.Driver.Prci

namespace Cyancore.Driver

/-- A fold reaches `goal` when one of its steps does and no step leaves it. -/
theorem foldl_reaches {α β : Type} {step : β → α → β} (inv goal : β → Prop) {l : List α}
    (hinv : ∀ state, inv state → ∀ a ∈ l, inv (step state a))
    (hgoal : ∀ state, goal state → ∀ a ∈ l, goal (step state a))
    {a : α} (ha : a ∈ l) (hhit : ∀ state, inv state → goal (step state a))
    {state : β} (hstate : inv state) : goal (l.foldl step state) := by
  induction l generalizing state with
  | nil => cases ha
  | cons b l ih =>
      rw [List.foldl_cons]
      cases ha with
      | head =>
          apply List.foldlRecOn l step (hhit state hstate)
          exact fun state' hstate' b' hb' => hgoal state' hstate' b' (List.mem_cons_of_mem _ hb')
      | tail _ ha =>
          apply ih _ _ ha
          · exact hinv state hstate b List.mem_cons_self
          · exact fun state' hstate' b' hb' => hinv state' hstate' b' (List.mem_cons_of_mem _ hb')
          · exact fun state' hstate' b' hb' => hgoal state' hstate' b' (List.mem_cons_of_mem _ hb')

namespace PllSearch

/-- A configuration was found. -/
def Found (search : PllSearch) : Prop := search.config.found = true

/-- Either a configuration was found, or any difference below the limit would do. -/
def Open (search : PllSearch) : Prop := search.Found ∨ search.nearest = maxPllOut

theorem open_start : start.Open := .inr rfl

end PllSearch

variable {clk ri fi qi pllout vco refr base : ℕ} {search : PllSearch}

/-- One setting is compared by a difference that the undivided output bounds. -/
theorem exists_pllTryDivider (clk ri fi qi pllout ni : ℕ) :
    ∃ diff conf, diff ≤ absDiff clk pllout ∧ conf.found = true ∧
      ∀ search, pllTryDivider clk ri fi qi pllout search ni =
        if diff < search.nearest then ⟨diff, conf⟩ else search := by
  by_cases hdiff : absDiff clk (pllout / (2 * (ni + 1))) < absDiff clk pllout
  · refine ⟨_, ⟨true, ri, fi, qi, 2 * (ni + 1) > 1, ni⟩, Nat.le_of_lt hdiff, rfl, ?_⟩
    intro search
    simp only [pllTryDivider, if_pos hdiff]
  · refine ⟨_, ⟨true, ri, fi, qi, 1 > 1, ni⟩, Nat.le_refl _, rfl, ?_⟩
    intro search
    simp only [pllTryDivider, if_neg hdiff]

/-! ## No step loses a configuration -/

theorem found_pllTryDivider (hfound : search.Found) (ni : ℕ) :
    (pllTryDivider clk ri fi qi pllout search ni).Found := by
  obtain ⟨diff, conf, _, hconf, heq⟩ := exists_pllTryDivider clk ri fi qi pllout ni
  rw [heq]
  split
  · exact hconf
  · exact hfound

theorem found_pllTryOutput (hfound : search.Found) (qi : ℕ) :
    (pllTryOutput clk ri fi vco search qi).Found := by
  simp only [pllTryOutput]
  split
  · exact hfound
  · exact List.foldlRecOn _ _ hfound fun _ h ni _ => found_pllTryDivider h ni

theorem found_pllTryMultiplier (hfound : search.Found) (fi : ℕ) :
    (pllTryMultiplier clk ri refr search fi).Found := by
  simp only [pllTryMultiplier]
  split
  · exact hfound
  · exact List.foldlRecOn _ _ hfound fun _ h qi _ => found_pllTryOutput h qi

theorem found_pllTryReference (hfound : search.Found) (ri : ℕ) :
    (pllTryReference base clk search ri).Found := by
  simp only [pllTryReference]
  split
  · exact hfound
  · exact List.foldlRecOn _ _ hfound fun _ h fi _ => found_pllTryMultiplier h fi

/-! ## Until then the limit stands -/

theorem open_pllTryDivider (hopen : search.Open) (ni : ℕ) :
    (pllTryDivider clk ri fi qi pllout search ni).Open := by
  obtain ⟨diff, conf, _, hconf, heq⟩ := exists_pllTryDivider clk ri fi qi pllout ni
  rw [heq]
  split
  · exact .inl hconf
  · exact hopen

theorem open_pllTryOutput (hopen : search.Open) (qi : ℕ) :
    (pllTryOutput clk ri fi vco search qi).Open := by
  simp only [pllTryOutput]
  split
  · exact hopen
  · exact List.foldlRecOn _ _ hopen fun _ h ni _ => open_pllTryDivider h ni

theorem open_pllTryMultiplier (hopen : search.Open) (fi : ℕ) :
    (pllTryMultiplier clk ri refr search fi).Open := by
  simp only [pllTryMultiplier]
  split
  · exact hopen
  · exact List.foldlRecOn _ _ hopen fun _ h qi _ => open_pllTryOutput h qi

theorem open_pllTryReference (hopen : search.Open) (ri : ℕ) :
    (pllTryReference base clk search ri).Open := by
  simp only [pllTryReference]
  split
  · exact hopen
  · exact List.foldlRecOn _ _ hopen fun _ h fi _ => open_pllTryMultiplier h fi

/-! ## A setting that always serves

Multiply a reference in range by 64, divide by 8, and every requested frequency is nearer
than the limit. -/

theorem absDiff_lt (hclk : minPllOut ≤ clk) (hclk' : clk ≤ maxPllOut)
    (hout : minPllo ≤ pllout) (hout' : pllout ≤ 96000000) : absDiff clk pllout < maxPllOut := by
  simp only [absDiff, minPllOut, maxPllOut, minPllo] at *
  split <;> omega

theorem found_pllTryDivider_of_near (hopen : search.Open) (hnear : absDiff clk pllout < maxPllOut)
    (ni : ℕ) : (pllTryDivider clk ri fi qi pllout search ni).Found := by
  cases hopen with
  | inl hfound => exact found_pllTryDivider hfound ni
  | inr hlimit =>
      obtain ⟨diff, conf, hdiff, hconf, heq⟩ := exists_pllTryDivider clk ri fi qi pllout ni
      rw [heq, hlimit, if_pos (Nat.lt_of_le_of_lt hdiff hnear)]
      exact hconf

theorem found_of_refr (hclk : minPllOut ≤ clk) (hclk' : clk ≤ maxPllOut)
    (hrefr : minRefr ≤ base / (ri + 1)) (hrefr' : base / (ri + 1) ≤ maxRefr)
    (hopen : search.Open) : (pllTryReference base clk search ri).Found := by
  simp only [minRefr, maxRefr] at hrefr hrefr'
  simp only [pllTryReference]
  rw [if_neg (by simp only [minRefr, maxRefr]; omega)]
  apply foldl_reaches PllSearch.Open PllSearch.Found (fun _ h fi _ => open_pllTryMultiplier h fi)
    (fun _ h fi _ => found_pllTryMultiplier h fi) (List.mem_range.mpr (show 31 < 64 by decide)) _
    hopen
  intro search hopen
  simp only [pllTryMultiplier]
  rw [if_neg (by simp only [minVco, maxVco]; omega)]
  apply foldl_reaches PllSearch.Open PllSearch.Found (fun _ h qi _ => open_pllTryOutput h qi)
    (fun _ h qi _ => found_pllTryOutput h qi) (show 3 ∈ List.range' 1 3 by decide) _ hopen
  intro search hopen
  simp only [pllTryOutput]
  rw [if_neg (by simp only [minPllo, maxPllo]; omega)]
  apply foldl_reaches PllSearch.Open PllSearch.Found (fun _ h ni _ => open_pllTryDivider h ni)
    (fun _ h ni _ => found_pllTryDivider h ni) (List.mem_range.mpr (show 0 < 64 by decide)) _ hopen
  intro search hopen
  apply found_pllTryDivider_of_near hopen
  apply absDiff_lt hclk hclk'
  · simp only [minPllo]
    omega
  · omega

/-- Some reference divider serves every crystal from 6 MHz to 96 MHz. -/
theorem exists_refr (hbase : 6000000 ≤ base) (hbase' : base ≤ 96000007) :
    ∃ ri < 8, minRefr ≤ base / (ri + 1) ∧ base / (ri + 1) ≤ maxRefr := by
  simp only [minRefr, maxRefr]
  by_cases h : base ≤ 12000000
  · exact ⟨0, by omega⟩
  · by_cases h : base ≤ 24000001
    · exact ⟨1, by omega⟩
    · by_cases h : base ≤ 48000003
      · exact ⟨3, by omega⟩
      · exact ⟨7, by omega⟩

/-- The search finds a configuration exactly for the crystals from 6 MHz to 96 MHz. -/
theorem found_pllConfigForNearestFreq_iff (hclk : minPllOut ≤ clk) (hclk' : clk ≤ maxPllOut) :
    (pllConfigForNearestFreq base clk).found = true ↔ 6000000 ≤ base ∧ base ≤ 96000007 := by
  constructor
  · intro hfound
    by_contra hbase
    have hskip : ∀ ri ∈ List.range 8, pllTryReference base clk .start ri = .start := by
      intro ri hri
      have hlt : ri < 8 := List.mem_range.mp hri
      simp only [pllTryReference]
      rw [if_pos]
      simp only [minRefr, maxRefr]
      have h : base / (ri + 1) ≤ base := Nat.div_le_self _ _
      have h' : base / 8 ≤ base / (ri + 1) := Nat.div_le_div_left (by omega) (by omega)
      omega
    have hstart : (List.range 8).foldl (pllTryReference base clk) .start = .start := by
      apply List.foldlRecOn (motive := fun search : PllSearch => search = .start) _ _ rfl
      intro search hsearch ri hri
      rw [hsearch, hskip ri hri]
    rw [pllConfigForNearestFreq, hstart] at hfound
    cases hfound
  · rintro ⟨hbase, hbase'⟩
    obtain ⟨ri, hri, hrefr, hrefr'⟩ := exists_refr hbase hbase'
    apply foldl_reaches PllSearch.Open PllSearch.Found (fun _ h ri _ => open_pllTryReference h ri)
      (fun _ h ri _ => found_pllTryReference h ri) (List.mem_range.mpr hri) _ PllSearch.open_start
    exact fun _ hopen => found_of_refr hclk hclk' hrefr hrefr' hopen

end Cyancore.Driver
