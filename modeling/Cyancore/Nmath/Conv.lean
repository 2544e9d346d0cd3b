/-
# Linear convolution

`conv` runs through the entries of the output, and for each of them through the entries of
the first input whose products belong to it.  The window has its start where the second
input has its last entry.  Its end compares the index of the output with the start and not
with the first input, and is therefore always the end of the first input: for an output
index before this end, the second input is read at negative indices.

The elements are exact numbers, and reading outside of an array is a fault.
-/

import Cyancore.Basic
import Cyancore.Math.Convolution
import Cyancore.Nmath.Arithmetic
import Mathlib.Algebra.Ring.Rat
import Mathlib.Data.List.GetD

namespace Cyancore.Nmath

open Cyancore.Math

/-- A sum of two sizes, if it is an `int`. -/
def sizeSum (intMax : ℕ) (m n : ℤ) : Outcome ArrayFault ℤ :=
  if -intMax - 1 ≤ m + n ∧ m + n ≤ intMax then .done (m + n) else .fault .overflow

/-- The inner loop of `conv`: the products from index `r` on are added to `c[ci]`. -/
def convInner (a b : List ℚ) (ci rend r : ℤ) (c : List ℚ) : Outcome ArrayFault (List ℚ) :=
  if r ≤ rend then do
    let factor ← readArray a r
    let factor' ← readArray b (ci - r)
    let sum ← readArray c ci
    convInner a b ci rend (r + 1) (c.set ci.toNat (sum + factor * factor'))
  else .done c
termination_by (rend + 1 - r).toNat

/-- The outer loop of `conv`, from the output index `ci` on. -/
def convOuter (a : List ℚ) (sizeA : ℤ) (b : List ℚ) (sizeB sizeC ci : ℤ) (c : List ℚ) :
    Outcome ArrayFault (List ℚ) :=
  if ci < sizeC then do
    let rstart := if ci ≥ sizeB - 1 then ci - (sizeB - 1) else 0
    let rend := if ci < rstart - 1 then ci else sizeA - 1
    let c ← convInner a b ci rend rstart c
    convOuter a sizeA b sizeB sizeC (ci + 1) c
  else .done c
termination_by (sizeC - ci).toNat

/-- `conv`, with what it leaves in `c`.  For sizes of at least one the sum in the check is the
only one that can leave the range of an `int`. -/
def conv (intMax : ℕ) (a : List ℚ) (sizeA : ℤ) (b : List ℚ) (sizeB : ℤ) (c : List ℚ)
    (sizeC : ℤ) : Outcome ArrayFault (StatusCode × List ℚ) := do
  let sum ← sizeSum intMax sizeA sizeB
  if sizeC < sum - 1 then .done (StatusCode.errorMathInvalArg, c)
  else
    let c ← convOuter a sizeA b sizeB sizeC 0 c
    .done (StatusCode.success, c)

/-- `conv` on whole arrays. -/
def convArrays (intMax : ℕ) (a b c : List ℚ) : Outcome ArrayFault (StatusCode × List ℚ) :=
  conv intMax a a.length b b.length c c.length

/-- The call leaves the convolution in an output that has room for it, and refuses any other. -/
def Convolves (intMax : ℕ) (a b c : List ℚ) : Prop :=
  if a.length + b.length ≤ c.length + 1 then
    convArrays intMax a b c =
      .done (StatusCode.success, (List.range c.length).map (convolution a b))
  else ∃ status ≠ StatusCode.success, convArrays intMax a b c = .done (status, c)

/-! ## The window -/

section Window

variable {a b : List ℚ}

/-- Where every index is inside, the products of the window are added to the entry. -/
theorem convInner_eq {ci : ℕ} (r : ℕ) (out : List ℚ) (hci : ci < out.length)
    (ha : a.length ≤ ci + 1) (hb : ci + 1 ≤ r + b.length) :
    convInner a b ci (a.length - 1) r out =
      .done (out.set ci (out[ci] + ∑ j ∈ Finset.Ico r a.length, convolutionTerm a b ci j)) := by
  by_cases hr : r < a.length
  · have hhead : (r : ℤ) ≤ a.length - 1 := by omega
    have hindex : (ci : ℤ) - r = ↑(ci - r) := by omega
    have hsecond : ci - r < b.length := by omega
    have hset : ci < (out.set ci (out[ci] + a[r] * b[ci - r])).length := by rwa [List.length_set]
    have hrest := convInner_eq (r + 1) (out.set ci (out[ci] + a[r] * b[ci - r])) hset ha (by omega)
    have hterm : convolutionTerm a b ci r = a[r] * b[ci - r] := by
      rw [convolutionTerm, List.getD_eq_getElem _ _ hr, List.getD_eq_getElem _ _ hsecond]
    rw [convInner, if_pos hhead, hindex, readArray_natCast hr, readArray_natCast hsecond,
      readArray_natCast hci]
    simp only [Outcome.done_bind, Int.toNat_natCast]
    rw [← Nat.cast_succ, hrest, List.set_set, List.getElem_set_self,
      Finset.sum_eq_sum_Ico_succ_bot hr, hterm, add_assoc]
  · have hend : ¬ (r : ℤ) ≤ a.length - 1 := by omega
    rw [convInner, if_neg hend, Finset.Ico_eq_empty hr, Finset.sum_empty, add_zero,
      List.set_getElem_self]
termination_by a.length - r

/-- Before the end of the first input, the loop reads the second input at minus one, if it
has not read outside of it earlier. -/
theorem convInner_ne_done {ci : ℕ} (r : ℕ) (c : List ℚ) (ha : ci + 1 < a.length)
    (hr : r ≤ ci + 1) (result : List ℚ) : convInner a b ci (a.length - 1) r c ≠ .done result := by
  intro hdone
  have hhead : (r : ℤ) ≤ a.length - 1 := by omega
  rw [convInner, if_pos hhead] at hdone
  obtain ⟨factor, -, hdone⟩ := Outcome.bind_eq_done_iff.mp hdone
  obtain ⟨factor', hread, hdone⟩ := Outcome.bind_eq_done_iff.mp hdone
  obtain ⟨sum, -, hdone⟩ := Outcome.bind_eq_done_iff.mp hdone
  by_cases hlast : r = ci + 1
  · have hnegative : ¬ 0 ≤ (ci : ℤ) - r := by omega
    rw [readArray, if_neg hnegative] at hread
    cases hread
  · rw [← Nat.cast_succ] at hdone
    exact convInner_ne_done (r + 1) _ ha (by omega) result hdone
termination_by ci + 1 - r

/-- The start of the window. -/
theorem rstart_eq (ci sizeB : ℕ) :
    (if (ci : ℤ) ≥ sizeB - 1 then (ci : ℤ) - (sizeB - 1) else 0) = ↑(ci + 1 - sizeB) := by
  split <;> omega

/-- The end of the window is the end of the first input for every entry of the output. -/
theorem convOuter_of_lt {n ci : ℕ} (c : List ℚ) (hci : ci < n) :
    convOuter a a.length b b.length n ci c =
      convInner a b ci (a.length - 1) ↑(ci + 1 - b.length) c >>=
        convOuter a a.length b b.length n ↑(ci + 1) := by
  have hend : ¬ (ci : ℤ) < ↑(ci + 1 - b.length) - 1 := by omega
  rw [convOuter, if_pos (Int.ofNat_lt.mpr hci), rstart_eq]
  dsimp only
  rw [if_neg hend]
  rfl

end Window

/-! ## The output -/

section Output

variable {a b : List ℚ}

/-- From the end of the first input on, every entry has the convolution added to it. -/
theorem convOuter_eq {n : ℕ} (ci : ℕ) (out : List ℚ) (hlength : out.length = n)
    (ha : a.length ≤ ci + 1) :
    convOuter a a.length b b.length n ci out =
      .done (out.mapIdx fun k value => if ci ≤ k then value + convolution a b k else value) := by
  by_cases hci : ci < n
  · have hinner := @convInner_eq a b ci (ci + 1 - b.length) out (by omega) ha (by omega)
    rw [← convolution_of_le ha] at hinner
    have hset : (out.set ci (out[ci] + convolution a b ci)).length = n := by rwa [List.length_set]
    rw [convOuter_of_lt out hci, hinner, Outcome.done_bind,
      convOuter_eq (ci + 1) _ hset (by omega)]
    congr 1
    apply List.ext_getElem
    · rw [List.length_mapIdx, List.length_mapIdx, List.length_set]
    · intro k hk hk'
      rw [List.getElem_mapIdx, List.getElem_mapIdx, List.getElem_set]
      rcases lt_trichotomy ci k with hlt | rfl | hlt
      · rw [if_pos (by omega), if_neg (by omega), if_pos hlt.le]
      · rw [if_neg (by omega), if_pos rfl, if_pos le_rfl]
      · rw [if_neg (by omega), if_neg (by omega), if_neg (by omega)]
  · have hend : ¬ (ci : ℤ) < n := by omega
    rw [convOuter, if_neg hend]
    congr 1
    apply List.ext_getElem
    · rw [List.length_mapIdx]
    · intro k hk hk'
      rw [List.getElem_mapIdx, if_neg (by omega)]
termination_by n - ci

/-- An input of more than one entry is not got through. -/
theorem convOuter_ne_done {n : ℕ} (hn : 0 < n) (ha : 1 < a.length) (c result : List ℚ) :
    convOuter a a.length b b.length n 0 c ≠ .done result := by
  intro hdone
  have hfirst := convOuter_of_lt (a := a) (b := b) c hn
  rw [Nat.cast_zero] at hfirst
  rw [hfirst] at hdone
  obtain ⟨c', hinner, -⟩ := Outcome.bind_eq_done_iff.mp hdone
  exact convInner_ne_done _ c ha (by omega) c' hinner

/-- On an output of zeros, what is added is what is left. -/
theorem mapIdx_add_convolution {c : List ℚ} (hzero : ∀ value ∈ c, value = 0) :
    (c.mapIdx fun k value => if 0 ≤ k then value + convolution a b k else value) =
      (List.range c.length).map (convolution a b) := by
  apply List.ext_getElem
  · rw [List.length_mapIdx, List.length_map, List.length_range]
  · intro k hk hk'
    rw [List.getElem_mapIdx, List.getElem_map, List.getElem_range, if_pos k.zero_le,
      hzero _ (List.getElem_mem _), zero_add]

end Output

/-! ## The call -/

section Call

variable {intMax : ℕ} {a b c : List ℚ}

theorem convArrays_of_overflow (h : intMax < a.length + b.length) :
    convArrays intMax a b c = .fault .overflow := by
  have hover : ¬ (-(intMax : ℤ) - 1 ≤ (a.length : ℤ) + b.length ∧
      (a.length : ℤ) + b.length ≤ intMax) := by omega
  rw [convArrays, conv, sizeSum, if_neg hover]
  rfl

theorem convArrays_of_fits (h : a.length + b.length ≤ intMax) :
    convArrays intMax a b c =
      if c.length + 1 < a.length + b.length then .done (StatusCode.errorMathInvalArg, c)
      else convOuter a a.length b b.length c.length 0 c >>=
        fun c => .done (StatusCode.success, c) := by
  have hfits : -(intMax : ℤ) - 1 ≤ (a.length : ℤ) + b.length ∧
      (a.length : ℤ) + b.length ≤ intMax := by omega
  have hcheck : (c.length : ℤ) < (a.length : ℤ) + b.length - 1 ↔
      c.length + 1 < a.length + b.length := by omega
  rw [convArrays, conv, sizeSum, if_pos hfits, Outcome.done_bind]
  simp only [hcheck]

theorem not_convolves_of_overflow (h : intMax < a.length + b.length) :
    ¬ Convolves intMax a b c := by
  rw [Convolves, convArrays_of_overflow h]
  split
  · exact fun hdone => by cases hdone
  · rintro ⟨status, -, hdone⟩
    cases hdone

/-- With room in the output, a first input of more than one entry has no result. -/
theorem not_convolves_of_one_lt (hroom : a.length + b.length ≤ c.length + 1)
    (hb : 0 < b.length) (ha : 1 < a.length) : ¬ Convolves intMax a b c := by
  rcases lt_or_ge intMax (a.length + b.length) with hover | hfits
  · exact not_convolves_of_overflow hover
  · rw [Convolves, if_pos hroom, convArrays_of_fits hfits, if_neg (not_lt.mpr hroom)]
    intro hdone
    obtain ⟨c', houter, -⟩ := Outcome.bind_eq_done_iff.mp hdone
    exact convOuter_ne_done (by omega) ha c c' houter

theorem convolves_of_refused (hfits : a.length + b.length ≤ intMax)
    (hsmall : c.length + 1 < a.length + b.length) : Convolves intMax a b c := by
  rw [Convolves, if_neg (not_le.mpr hsmall), convArrays_of_fits hfits, if_pos hsmall]
  exact ⟨StatusCode.errorMathInvalArg, by decide, rfl⟩

theorem convolves_of_length_eq_one (hfits : a.length + b.length ≤ intMax)
    (hroom : a.length + b.length ≤ c.length + 1) (ha : a.length = 1)
    (hzero : ∀ value ∈ c, value = 0) : Convolves intMax a b c := by
  have houter := @convOuter_eq a b c.length 0 c rfl ha.le
  rw [Nat.cast_zero, mapIdx_add_convolution hzero] at houter
  rw [Convolves, if_pos hroom, convArrays_of_fits hfits, if_neg (not_lt.mpr hroom), houter]
  rfl

end Call

/-- The call does what it promises where the output is too small for the inputs, and where
the first input has one entry; the sum of the sizes has to be an `int` in either case. -/
theorem convolves_iff (intMax : ℕ) (a b c : List ℚ) (ha : 0 < a.length) (hb : 0 < b.length)
    (hzero : a.length + b.length ≤ c.length + 1 → ∀ value ∈ c, value = 0) :
    Convolves intMax a b c ↔
      a.length + b.length ≤ intMax ∧
        (a.length = 1 ∨ c.length + 1 < a.length + b.length) := by
  rcases lt_or_ge intMax (a.length + b.length) with hover | hfits
  · exact iff_of_false (not_convolves_of_overflow hover) fun h => absurd h.1 (not_le.mpr hover)
  rw [and_iff_right hfits]
  rcases lt_or_ge (c.length + 1) (a.length + b.length) with hsmall | hroom
  · exact iff_of_true (convolves_of_refused hfits hsmall) (Or.inr hsmall)
  rw [or_iff_left (not_lt.mpr hroom)]
  constructor
  · intro hconvolves
    by_contra hone
    exact not_convolves_of_one_lt hroom hb (by omega) hconvolves
  · exact fun hone => convolves_of_length_eq_one hfits hroom hone (hzero hroom)

theorem convolves_one_two : Convolves 32767 [2] [3, 4] [0, 0] :=
  (convolves_iff 32767 [2] [3, 4] [0, 0] (by decide) (by decide) (by simp)).mpr
    ⟨by decide, .inl rfl⟩

/-- Two entries and one: the second input is read at minus one. -/
theorem not_convolves_two_one : ¬ Convolves 32767 [1, 1] [1] [0, 0] :=
  not_convolves_of_one_lt (by decide) (by decide) (by decide)

end Cyancore.Nmath
