/-
# Logarithm, greatest common divisor and least common multiple

The unsigned functions of the arithmetic library.  `clog2` halves its argument and rounds up
at every odd number it meets; the rounding adds one before it shifts, which is one too many
for the largest `unsigned long`.

The loop of `lcm` keeps the least common multiple of the elements it has been through, and is
entered with its index at the end of the array: what is returned is the first element.
-/

import Cyancore.Math.Outcome
import Mathlib.Algebra.GCDMonoid.Nat
import Mathlib.Data.Nat.Log

namespace Cyancore.Nmath

open Cyancore.Math

/-! ## `clog2` -/

/-- `clog2`, with an `unsigned long` of `longBits` bits.  The count is at most their number,
and far from the end of an `unsigned int`. -/
def clog2 (longBits num : ℕ) : ℕ :=
  if 1 < num then
    1 + clog2 longBits
      (if num &&& 1 ≠ 0 then ((num + 1) % 2 ^ longBits) >>> 1 else num >>> 1)
  else 0
termination_by num
decreasing_by
  have hwrap := Nat.mod_le (num + 1) (2 ^ longBits)
  simp only [Nat.shiftRight_eq_div_pow, pow_one]
  split <;> omega

/-- The call returns the ceiling of the logarithm. -/
def CeilLog (longBits num : ℕ) : Prop :=
  num ≤ 2 ^ clog2 longBits num ∧ (1 < num → 2 ^ (clog2 longBits num - 1) < num)

/-- Where the rounding does not wrap around, either branch halves and rounds up. -/
theorem clog2_of_lt {longBits num : ℕ} (hone : 1 < num) (hlong : num + 1 < 2 ^ longBits) :
    clog2 longBits num = 1 + clog2 longBits ((num + 1) / 2) := by
  have hhalf : (if num &&& 1 ≠ 0 then ((num + 1) % 2 ^ longBits) >>> 1 else num >>> 1) =
      (num + 1) / 2 := by
    simp only [Nat.and_one_is_mod, Nat.mod_eq_of_lt hlong, Nat.shiftRight_eq_div_pow, pow_one]
    split <;> omega
  rw [clog2, if_pos hone, hhalf]

/-- Below the largest word the call computes the logarithm. -/
theorem clog2_eq_clog {longBits num : ℕ} (hlong : num + 1 < 2 ^ longBits) :
    clog2 longBits num = Nat.clog 2 num := by
  induction num using Nat.strong_induction_on with
  | _ num ih =>
    by_cases hone : 1 < num
    · have hless : (num + 1) / 2 < num := by omega
      rw [clog2_of_lt hone hlong, ih _ hless (by omega), Nat.clog_of_two_le Nat.one_lt_two hone,
        add_comm]
      rfl
    · rw [clog2, if_neg hone, Nat.clog_of_right_le_one (not_lt.mp hone)]

/-- One more than the largest word is zero, and so is half of it. -/
theorem clog2_largest {longBits : ℕ} (hbits : 1 < longBits) :
    clog2 longBits (2 ^ longBits - 1) = 1 := by
  have hfour : 2 ^ 2 ≤ 2 ^ longBits := Nat.pow_le_pow_right Nat.two_pos hbits
  have hodd : (2 ^ longBits - 1) &&& 1 ≠ 0 := by
    rw [Nat.and_one_is_mod]
    have heven : 2 ∣ 2 ^ longBits := dvd_pow_self 2 (by omega)
    omega
  have hwrap : 2 ^ longBits - 1 + 1 = 2 ^ longBits := by omega
  rw [clog2, if_pos (by omega), if_pos hodd, hwrap, Nat.mod_self, Nat.zero_shiftRight, clog2,
    if_neg (by decide)]

/-- The call computes the logarithm of every `unsigned long` but the largest. -/
theorem ceilLog_iff (longBits num : ℕ) (hbits : 1 < longBits) (hpos : 1 ≤ num)
    (hnum : num < 2 ^ longBits) : CeilLog longBits num ↔ num ≠ 2 ^ longBits - 1 := by
  constructor
  · rintro hlog rfl
    have hfour : 2 ^ 2 ≤ 2 ^ longBits := Nat.pow_le_pow_right Nat.two_pos hbits
    have hle := hlog.1
    rw [clog2_largest hbits] at hle
    omega
  · intro hlargest
    rw [CeilLog, clog2_eq_clog (by omega)]
    exact ⟨Nat.le_pow_clog Nat.one_lt_two num, Nat.pow_pred_clog_lt_self Nat.one_lt_two⟩

theorem ceilLog_five : CeilLog 32 5 :=
  (ceilLog_iff 32 5 (by decide) (by decide) (by decide)).mpr (by decide)

/-- Of 0xffffffff the call returns 1. -/
theorem not_ceilLog_largest : ¬ CeilLog 32 0xffffffff := by
  intro hlog
  have hle := hlog.1
  rw [show 0xffffffff = 2 ^ 32 - 1 from rfl, clog2_largest (by decide)] at hle
  exact absurd hle (by decide)

/-! ## `gcd` -/

/-- `gcd`. -/
def gcd (a b : ℕ) : ℕ :=
  if b = 0 then a else gcd b (a % b)
termination_by b
decreasing_by exact Nat.mod_lt a (Nat.pos_of_ne_zero (by assumption))

theorem gcd_eq (a b : ℕ) : gcd a b = Nat.gcd a b := by
  induction a, b using gcd.induct with
  | case1 a => rw [gcd, if_pos rfl, Nat.gcd_zero_right]
  | case2 a b hb ih => rw [gcd, if_neg hb, ih, Nat.gcd_comm, ← Nat.gcd_rec, Nat.gcd_comm]

/-! ## `lcm` -/

/-- How code that works on arrays can have no value. -/
inductive ArrayFault
  | outside
  | overflow
  | divisionByZero
  deriving DecidableEq, Repr

/-- `a[i]`, with an index of either sign. -/
def readArray {α : Type} (a : List α) (i : ℤ) : Outcome ArrayFault α :=
  if 0 ≤ i then
    match a[i.toNat]? with
    | some value => .done value
    | none => .fault .outside
  else .fault .outside

theorem readArray_natCast {α : Type} {a : List α} {i : ℕ} (hi : i < a.length) :
    readArray a i = .done a[i] := by
  rw [readArray, if_pos (Int.natCast_nonneg i), Int.toNat_natCast, List.getElem?_eq_getElem hi]

/-- The variables of the loop in `lcm`. -/
structure LcmState where
  i : ℕ
  ret : ℕ

/-- One turn of the loop.  The element is widened to an `unsigned long` before the product. -/
def lcmTurn (longBits : ℕ) (a : List ℕ) (n : ℕ) (state : LcmState) :
    Outcome ArrayFault (Turn LcmState ℕ) :=
  if state.i < n then do
    let value ← readArray a state.i
    let product := value * state.ret % 2 ^ longBits
    let divisor := gcd value state.ret
    if divisor = 0 then .fault .divisionByZero
    else .done (.next ⟨state.i + 1, product / divisor⟩)
  else .done (.exit state.ret)

/-- `lcm`.  The loop is entered with `i = n`. -/
def lcm (longBits : ℕ) (a : List ℕ) (n : ℕ) (fuel : ℕ) : Outcome ArrayFault ℕ := do
  let first ← readArray a 0
  loop (lcmTurn longBits a n) fuel ⟨n, first⟩

/-- The call on the whole array returns the least common multiple of its elements. -/
def ReturnsLcm (longBits : ℕ) (a : List ℕ) : Prop :=
  ∃ ret, Returns (lcm longBits a a.length) ret ∧ (∀ value ∈ a, value ∣ ret) ∧
    ∀ multiple, (∀ value ∈ a, value ∣ multiple) → ret ∣ multiple

section Lcm

variable {longBits : ℕ} {a : List ℕ}

/-- A turn takes the next element into the least common multiple, if the product fits. -/
theorem lcmTurn_of_lt {i ret : ℕ} (hi : i < a.length) (hpos : 0 < a[i])
    (hfits : a[i] * ret < 2 ^ longBits) :
    lcmTurn longBits a a.length ⟨i, ret⟩ = .done (.next ⟨i + 1, Nat.lcm ret a[i]⟩) := by
  have hdivisor : Nat.gcd a[i] ret ≠ 0 := Nat.gcd_ne_zero_left hpos.ne'
  rw [lcmTurn, if_pos hi, readArray_natCast hi]
  dsimp only [Outcome.done_bind]
  rw [gcd_eq, if_neg hdivisor, Nat.mod_eq_of_lt hfits, Nat.lcm_comm]
  rfl

theorem le_lcm {ret value : ℕ} (hpos : 0 < value) : ret ≤ Nat.lcm ret value := by
  rcases ret.eq_zero_or_pos with rfl | hret
  · exact Nat.zero_le _
  · exact Nat.le_of_dvd (Nat.lcm_pos hret hpos) (Nat.dvd_lcm_left ret value)

theorem le_foldl_lcm {rest : List ℕ} {ret : ℕ} (hpos : ∀ value ∈ rest, 0 < value) :
    ret ≤ rest.foldl Nat.lcm ret := by
  induction rest generalizing ret with
  | nil => exact le_rfl
  | cons value rest ih =>
      rw [List.forall_mem_cons] at hpos
      exact (le_lcm hpos.1).trans (ih hpos.2)

/-- From any index the loop takes the rest of the array into the least common multiple. -/
theorem returns_lcmTurn (rest : List ℕ) {i ret : ℕ} (hrest : a.drop i = rest)
    (hpos : ∀ value ∈ rest, 0 < value)
    (hfits : ∀ value ∈ rest, value * rest.foldl Nat.lcm ret < 2 ^ longBits) :
    Returns (fun fuel => loop (lcmTurn longBits a a.length) fuel ⟨i, ret⟩)
      (rest.foldl Nat.lcm ret) := by
  induction rest generalizing i ret with
  | nil =>
      have hend : ¬ i < a.length := not_lt.mpr (List.drop_eq_nil_iff.mp hrest)
      have hexit : lcmTurn longBits a a.length ⟨i, ret⟩ = .done (.exit ret) := if_neg hend
      exact (returns_loop_of_exit hexit).mpr rfl
  | cons value rest ih =>
      have hi : i < a.length := by
        by_contra hend
        rw [List.drop_eq_nil_of_le (not_lt.mp hend)] at hrest
        exact List.cons_ne_nil value rest hrest.symm
      rw [List.drop_eq_getElem_cons hi, List.cons.injEq] at hrest
      have hle : ret ≤ (value :: rest).foldl Nat.lcm ret := le_foldl_lcm hpos
      rw [List.forall_mem_cons] at hpos hfits
      have hnext : lcmTurn longBits a a.length ⟨i, ret⟩ =
          .done (.next ⟨i + 1, Nat.lcm ret value⟩) := by
        rw [← hrest.1] at hle hpos hfits ⊢
        exact lcmTurn_of_lt hi hpos.1 ((Nat.mul_le_mul_left _ hle).trans_lt hfits.1)
      exact (returns_loop_of_next hnext).mpr (ih hrest.2 hpos.2 hfits.2)

theorem fuelMono_lcm (longBits : ℕ) (a : List ℕ) (n : ℕ) : FuelMono (lcm longBits a n) :=
  FuelMono.bind (fuelMono_const _) fun _ => fuelMono_loop _ _

/-- The loop is at its end when it is entered. -/
theorem returns_lcm (longBits first : ℕ) (rest : List ℕ) :
    Returns (lcm longBits (first :: rest) (first :: rest).length) first := by
  have hfirst : readArray (first :: rest) 0 = .done first := rfl
  have hend : (first :: rest).drop (first :: rest).length = [] := List.drop_length
  obtain ⟨fuel, hfuel⟩ :=
    @returns_lcmTurn longBits _ [] _ first hend (List.forall_mem_nil _) (List.forall_mem_nil _)
  refine ⟨fuel, ?_⟩
  rw [lcm, hfirst]
  exact hfuel

end Lcm

/-- What is returned is the least common multiple where every element divides the first. -/
theorem returnsLcm_iff (longBits first : ℕ) (rest : List ℕ) :
    ReturnsLcm longBits (first :: rest) ↔ ∀ value ∈ rest, value ∣ first := by
  have hreturns := returns_lcm longBits first rest
  constructor
  · rintro ⟨ret, hret, hmultiple, -⟩ value hvalue
    obtain rfl := hret.unique (fuelMono_lcm _ _ _) hreturns
    exact hmultiple value (List.mem_cons_of_mem _ hvalue)
  · intro hdvd
    exact ⟨first, hreturns, List.forall_mem_cons.mpr ⟨dvd_rfl, hdvd⟩,
      fun multiple hmultiple => hmultiple first List.mem_cons_self⟩

/-- Of 2 and 3 the call returns 2. -/
theorem not_returnsLcm_two_three : ¬ ReturnsLcm 64 [2, 3] := by
  rintro ⟨ret, hret, hmultiple, -⟩
  obtain rfl := hret.unique (fuelMono_lcm _ _ _) (returns_lcm 64 2 [3])
  exact absurd (hmultiple 3 (by decide)) (by decide)


end Cyancore.Nmath
