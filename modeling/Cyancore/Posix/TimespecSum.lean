/-
# Sums of times

`UTILS_TimespecAdd` carries the nanoseconds into the seconds and then looks at the sign of
the wrapped seconds.  `UTILS_TimespecAddNanoseconds` looks at the sign of the nanoseconds
as well, before anything is carried or borrowed, and so refuses a count that would only
take a part of the seconds away.

Every valid time is the normal form of its nanoseconds, and each function is compared with
that normal form.
-/

import Cyancore.Posix.DeltaTicks

namespace Cyancore.Posix

/-! ## The functions -/

/-- A value stored in a `long` of 32 bits. -/
def toLong (value : ℤ) : ℤ := (BitVec.ofInt 32 value).toInt

/-- `UTILS_NanosecondsToTimespec`. -/
def utilsNanosecondsToTimespec (llSource : BitVec 64) : Timespec :=
  let tvSec := BitVec.ofInt 64 (llSource.toInt.tdiv nanosecondsPerSecond)
  let tvNsec := toLong (llSource.toInt.tmod nanosecondsPerSecond)
  if tvNsec < 0 then
    let carrySec := toLong (tvNsec.tdiv nanosecondsPerSecond + 1)
    ⟨tvSec - BitVec.ofInt 64 carrySec, toLong (tvNsec + toLong (carrySec * nanosecondsPerSecond))⟩
  else ⟨tvSec, tvNsec⟩

/-- `UTILS_TimespecAdd`: the status, and what is in `*pxResult` afterwards.  Any pointer may be
null. -/
def utilsTimespecAdd (x y pxResult : Option Timespec) : ℤ × Option Timespec :=
  match x, y, pxResult with
  | some xTime, some yTime, some old =>
      let tvNsec := toLong (xTime.tvNsec + yTime.tvNsec)
      if tvNsec < 0 then (1, some { old with tvNsec := tvNsec })
      else
        let partialSec := BitVec.ofInt 64 (tvNsec.tdiv nanosecondsPerSecond)
        let tvNsec := toLong (tvNsec.tmod nanosecondsPerSecond)
        let tvSec := xTime.tvSec + yTime.tvSec + partialSec
        (if tvSec.toInt < 0 then 1 else 0, some ⟨tvSec, tvNsec⟩)
  | _, _, _ => (-1, pxResult)

/-- `UTILS_TimespecAddNanoseconds`: the status, and what is in `*pxResult` afterwards.  Either
pointer may be null. -/
def utilsTimespecAddNanoseconds (x : Option Timespec) (lnanoSecs : BitVec 64)
    (pxResult : Option Timespec) : ℤ × Option Timespec :=
  match x, pxResult with
  | some xTime, some old =>
      let totalSec := BitVec.ofInt 64 xTime.tvNsec + lnanoSecs
      if totalSec.toInt < 0 then (1, some old)
      else
        let tvNsec := toLong (totalSec.toInt.tmod nanosecondsPerSecond)
        let tvSec := xTime.tvSec + BitVec.ofInt 64 (totalSec.toInt.tdiv nanosecondsPerSecond)
        (if tvSec.toInt < 0 then 1 else 0, some ⟨tvSec, tvNsec⟩)
  | _, _ => (-1, pxResult)

/-! ## Normal forms -/

namespace Timespec

/-- The nanoseconds are those of less than a second. -/
structure Valid (time : Timespec) : Prop where
  nsec_nonneg : 0 ≤ time.tvNsec
  nsec_lt : time.tvNsec < nanosecondsPerSecond

/-- The valid time with so many nanoseconds; its seconds wrap. -/
def ofNanos (nanos : ℤ) : Timespec :=
  ⟨BitVec.ofInt 64 (nanos / nanosecondsPerSecond), nanos % nanosecondsPerSecond⟩

theorem OnClock.valid {time : Timespec} (htime : time.OnClock) : time.Valid :=
  ⟨htime.nsec_nonneg, htime.nsec_lt⟩

theorem valid_ofNanos (nanos : ℤ) : (ofNanos nanos).Valid where
  nsec_nonneg := Int.emod_nonneg _ (by decide)
  nsec_lt := Int.emod_lt_of_pos _ (by decide)

/-- Whole seconds and a rest are divided again. -/
theorem ofNanos_mul_add (sec nsec : ℤ) :
    ofNanos (sec * nanosecondsPerSecond + nsec) =
      ⟨BitVec.ofInt 64 sec + BitVec.ofInt 64 (nsec / nanosecondsPerSecond),
        nsec % nanosecondsPerSecond⟩ := by
  have hdiv : (sec * nanosecondsPerSecond + nsec) / nanosecondsPerSecond =
      sec + nsec / nanosecondsPerSecond := by
    rw [Int.add_comm, Int.add_mul_ediv_right _ _ (by decide), Int.add_comm]
  rw [ofNanos, hdiv, Int.add_comm (sec * _), Int.add_mul_emod_self_right, BitVec.ofInt_add]

/-- A valid time is determined by its nanoseconds. -/
theorem Valid.ofNanos_nanos {time : Timespec} (htime : time.Valid) :
    ofNanos time.nanos = time := by
  rw [nanos, ofNanos_mul_add, BitVec.ofInt_toInt,
    Int.ediv_eq_zero_of_lt htime.nsec_nonneg htime.nsec_lt,
    Int.emod_eq_of_lt htime.nsec_nonneg htime.nsec_lt]
  exact congrArg (Timespec.mk · time.tvNsec) (BitVec.add_zero _)

/-- The time is not before the epoch, and its whole seconds fit 64 signed bits. -/
def Storable (nanos : ℤ) : Prop := 0 ≤ nanos ∧ nanos / nanosecondsPerSecond ≤ 2 ^ 63 - 1

instance (nanos : ℤ) : Decidable (Storable nanos) := inferInstanceAs (Decidable (_ ∧ _))

/-- A time that can be stored keeps its nanoseconds. -/
theorem nanos_ofNanos {nanos : ℤ} (hstorable : Storable nanos) : (ofNanos nanos).nanos = nanos := by
  obtain ⟨hnonneg, hfits⟩ := hstorable
  have hsec : (BitVec.ofInt 64 (nanos / nanosecondsPerSecond)).toInt =
      nanos / nanosecondsPerSecond := by
    refine BitVec.toInt_ofInt_eq_self (by decide) ?_ (by omega)
    simp only [nanosecondsPerSecond]
    omega
  rw [Timespec.nanos, ofNanos, hsec, Int.mul_comm]
  exact Int.mul_ediv_add_emod _ _

theorem onClock_ofNanos {nanos : ℤ} (hstorable : Storable nanos) : (ofNanos nanos).OnClock where
  sec_nonneg := by
    have hnanos := nanos_ofNanos hstorable
    have hlt := (valid_ofNanos nanos).nsec_lt
    have hnonneg := hstorable.1
    simp only [Timespec.nanos, nanosecondsPerSecond] at hnanos hlt
    omega
  nsec_nonneg := (valid_ofNanos nanos).nsec_nonneg
  nsec_lt := (valid_ofNanos nanos).nsec_lt

/-- Seconds that have wrapped once at most show it in their sign. -/
theorem tvSec_ofNanos_neg_iff {nanos : ℤ} (hlow : -2 ^ 63 ≤ nanos / nanosecondsPerSecond)
    (hhigh : nanos / nanosecondsPerSecond < 2 ^ 64) :
    (ofNanos nanos).tvSec.toInt < 0 ↔ ¬ Storable nanos := by
  rw [ofNanos, BitVec.toInt_ofInt, Storable]
  simp only [nanosecondsPerSecond, Int.bmod_def] at *
  omega

end Timespec

/-! ## What the functions compute -/

open Timespec

variable {x y : Timespec}

theorem toLong_eq {value : ℤ} (hlow : -2 ^ 31 ≤ value) (hhigh : value < 2 ^ 31) :
    toLong value = value :=
  BitVec.toInt_ofInt_eq_self (by decide) hlow hhigh

/-- A negative rest of less than a second is no whole second. -/
theorem tdiv_eq_zero_of_neg {nsec : ℤ} (hlow : -nanosecondsPerSecond < nsec) (hneg : nsec < 0) :
    nsec.tdiv nanosecondsPerSecond = 0 := by
  have hzero : (-nsec).tdiv nanosecondsPerSecond = 0 :=
    Int.tdiv_eq_zero_of_lt (by omega) (by omega)
  rw [Int.neg_tdiv] at hzero
  omega

/-- Truncated towards zero, and then corrected by a second. -/
theorem utilsNanosecondsToTimespec_eq (llSource : BitVec 64) :
    utilsNanosecondsToTimespec llSource = ofNanos llSource.toInt := by
  have hpos : (0 : ℤ) < nanosecondsPerSecond := by decide
  have hsecond : (nanosecondsPerSecond : ℤ) < 2 ^ 31 := by decide
  have hnonneg := Int.emod_nonneg llSource.toInt hpos.ne'
  have hlt := Int.emod_lt_of_pos llSource.toInt hpos
  by_cases hexact : 0 ≤ llSource.toInt ∨ (nanosecondsPerSecond : ℤ) ∣ llSource.toInt
  · have hdiv : llSource.toInt.tdiv nanosecondsPerSecond =
        llSource.toInt / nanosecondsPerSecond := by
      rw [Int.tdiv_eq_ediv, if_pos hexact, Int.add_zero]
    have hmod : llSource.toInt.tmod nanosecondsPerSecond =
        llSource.toInt % nanosecondsPerSecond := by
      rw [Int.tmod_eq_emod, if_pos hexact]
      exact Int.sub_zero _
    have hrest := @toLong_eq (llSource.toInt % nanosecondsPerSecond) (by omega) (by omega)
    simp only [utilsNanosecondsToTimespec, hdiv, hmod, hrest, if_neg (not_lt.mpr hnonneg)]
    rfl
  · have hdiv : llSource.toInt.tdiv nanosecondsPerSecond =
        llSource.toInt / nanosecondsPerSecond + 1 := by
      rw [Int.tdiv_eq_ediv, if_neg hexact]
      rfl
    have hmod : llSource.toInt.tmod nanosecondsPerSecond =
        llSource.toInt % nanosecondsPerSecond - nanosecondsPerSecond := by
      rw [Int.tmod_eq_emod, if_neg hexact]
      rfl
    have hrest := @toLong_eq (llSource.toInt % nanosecondsPerSecond - nanosecondsPerSecond)
      (by omega) (by omega)
    have hne : llSource.toInt % nanosecondsPerSecond ≠ 0 := fun hzero =>
      hexact (.inr (Int.dvd_of_emod_eq_zero hzero))
    have hcarry := @tdiv_eq_zero_of_neg (llSource.toInt % nanosecondsPerSecond -
      nanosecondsPerSecond) (by omega) (by omega)
    have hone : toLong (0 + 1) = 1 := toLong_eq (by decide) (by decide)
    have hsecond' : toLong (1 * nanosecondsPerSecond) = nanosecondsPerSecond :=
      (toLong_eq (by decide) (by decide)).trans (Int.one_mul _)
    have hsum : llSource.toInt % nanosecondsPerSecond - nanosecondsPerSecond +
        nanosecondsPerSecond = llSource.toInt % nanosecondsPerSecond := Int.sub_add_cancel _ _
    have hback := @toLong_eq (llSource.toInt % nanosecondsPerSecond) (by omega) (by omega)
    simp only [utilsNanosecondsToTimespec, hdiv, hmod, hrest, hcarry, hone, hsecond', hsum, hback,
      if_pos (show llSource.toInt % nanosecondsPerSecond - nanosecondsPerSecond < 0 by omega)]
    rw [ofNanos, BitVec.ofInt_add, BitVec.add_sub_cancel]

/-- `UTILS_TimespecAdd` of valid times stores the normal form of the sum. -/
theorem utilsTimespecAdd_eq (hx : x.Valid) (hy : y.Valid) (old : Timespec) :
    utilsTimespecAdd (some x) (some y) (some old) =
      (if (ofNanos (x.nanos + y.nanos)).tvSec.toInt < 0 then 1 else 0,
        some (ofNanos (x.nanos + y.nanos))) := by
  obtain ⟨hxlow, hxhigh⟩ := hx
  obtain ⟨hylow, hyhigh⟩ := hy
  have hsecond : (nanosecondsPerSecond : ℤ) < 2 ^ 30 := by decide
  have hnonneg : 0 ≤ x.tvNsec + y.tvNsec := by omega
  have hsum := @toLong_eq (x.tvNsec + y.tvNsec) (by omega) (by omega)
  have hmod := Int.emod_lt_of_pos (x.tvNsec + y.tvNsec)
    (show (0 : ℤ) < nanosecondsPerSecond by decide)
  have hmod' := Int.emod_nonneg (x.tvNsec + y.tvNsec)
    (show (nanosecondsPerSecond : ℤ) ≠ 0 by decide)
  have hrest := @toLong_eq ((x.tvNsec + y.tvNsec) % nanosecondsPerSecond) (by omega) (by omega)
  have hnanos : x.nanos + y.nanos =
      (x.tvSec.toInt + y.tvSec.toInt) * nanosecondsPerSecond + (x.tvNsec + y.tvNsec) := by
    rw [Timespec.nanos, Timespec.nanos, Int.add_mul]
    omega
  have hnormal : ofNanos (x.nanos + y.nanos) =
      ⟨x.tvSec + y.tvSec + BitVec.ofInt 64 ((x.tvNsec + y.tvNsec) / nanosecondsPerSecond),
        (x.tvNsec + y.tvNsec) % nanosecondsPerSecond⟩ := by
    rw [hnanos, ofNanos_mul_add, BitVec.ofInt_add, BitVec.ofInt_toInt, BitVec.ofInt_toInt]
  simp only [utilsTimespecAdd, hsum, if_neg (not_lt.mpr hnonneg),
    Int.tdiv_eq_ediv_of_nonneg hnonneg, Int.tmod_eq_emod_of_nonneg hnonneg, hrest, hnormal]

/-- The nanoseconds of a valid time, whatever its seconds are. -/
theorem Timespec.Valid.nanos_bounds (hx : x.Valid) :
    -2 ^ 63 * nanosecondsPerSecond ≤ x.nanos ∧ x.nanos < 2 ^ 63 * nanosecondsPerSecond := by
  obtain ⟨hlow, hhigh⟩ := hx
  have hsec := x.tvSec.toInt_lt
  have hsec' := x.tvSec.le_toInt
  simp only [Timespec.nanos, nanosecondsPerSecond] at *
  omega

/-- The sign tells whether a sum can be stored, if the first time is not before the epoch. -/
theorem utilsTimespecAdd_of_onClock (hx : x.OnClock) (hy : y.Valid) (old : Timespec) :
    utilsTimespecAdd (some x) (some y) (some old) =
      (if Storable (x.nanos + y.nanos) then 0 else 1, some (ofNanos (x.nanos + y.nanos))) := by
  have hxhigh := hx.valid.nanos_bounds.2
  have hxlow : 0 ≤ x.nanos := Int.add_nonneg (Int.mul_nonneg hx.sec_nonneg (by decide))
    hx.nsec_nonneg
  obtain ⟨hylow, hyhigh⟩ := hy.nanos_bounds
  have hsign := @tvSec_ofNanos_neg_iff (x.nanos + y.nanos)
    (by simp only [nanosecondsPerSecond] at *; omega)
    (by simp only [nanosecondsPerSecond] at *; omega)
  rw [utilsTimespecAdd_eq hx.valid hy]
  simp only [hsign]
  split_ifs <;> rfl

theorem Timespec.OnClock.storable_iff (hx : x.OnClock) (hy : y.OnClock) :
    Storable (x.nanos + y.nanos) ↔
      (x.nanos + y.nanos) / nanosecondsPerSecond ≤ 2 ^ 63 - 1 := by
  have hxlow : 0 ≤ x.nanos := Int.add_nonneg (Int.mul_nonneg hx.sec_nonneg (by decide))
    hx.nsec_nonneg
  have hylow : 0 ≤ y.nanos := Int.add_nonneg (Int.mul_nonneg hy.sec_nonneg (by decide))
    hy.nsec_nonneg
  exact and_iff_right (Int.add_nonneg hxlow hylow)

/-! ## Conversion -/

/-- The seconds of any count of nanoseconds fit. -/
theorem nanos_ofNanos_toInt (llSource : BitVec 64) :
    (ofNanos llSource.toInt).nanos = llSource.toInt := by
  have hlt := llSource.toInt_lt
  have hle := llSource.le_toInt
  have hsec : (BitVec.ofInt 64 (llSource.toInt / nanosecondsPerSecond)).toInt =
      llSource.toInt / nanosecondsPerSecond := by
    apply BitVec.toInt_ofInt_eq_self (by decide)
    · simp only [nanosecondsPerSecond]
      omega
    · simp only [nanosecondsPerSecond]
      omega
  rw [Timespec.nanos, ofNanos, hsec, Int.mul_comm]
  exact Int.mul_ediv_add_emod _ _

/-- Every count of nanoseconds, before the epoch or after it, becomes the valid time with so many
nanoseconds. -/
theorem utilsNanosecondsToTimespec_normal (llSource : BitVec 64) :
    0 ≤ (utilsNanosecondsToTimespec llSource).tvNsec ∧
      (utilsNanosecondsToTimespec llSource).tvNsec < nanosecondsPerSecond ∧
      (utilsNanosecondsToTimespec llSource).tvSec.toInt * nanosecondsPerSecond +
        (utilsNanosecondsToTimespec llSource).tvNsec = llSource.toInt := by
  rw [utilsNanosecondsToTimespec_eq]
  exact ⟨(valid_ofNanos _).nsec_nonneg, (valid_ofNanos _).nsec_lt, nanos_ofNanos_toInt llSource⟩

/-! ## Addition and subtraction -/

/-- A sum is exact or refused, does not depend on the order, and is undone by subtraction. -/
structure AddLaws (x y : Timespec) : Prop where
  zero_iff : ∀ old, (utilsTimespecAdd (some x) (some y) (some old)).1 = 0 ↔
    (x.nanos + y.nanos) / nanosecondsPerSecond ≤ 2 ^ 63 - 1
  refused : ¬ (x.nanos + y.nanos) / nanosecondsPerSecond ≤ 2 ^ 63 - 1 →
    ∀ old, (utilsTimespecAdd (some x) (some y) (some old)).1 = 1
  exact : (x.nanos + y.nanos) / nanosecondsPerSecond ≤ 2 ^ 63 - 1 → ∀ old,
    ∃ sum : Timespec, utilsTimespecAdd (some x) (some y) (some old) = (0, some sum) ∧
      sum.Valid ∧ sum.nanos = x.nanos + y.nanos
  comm : ∀ old, utilsTimespecAdd (some x) (some y) (some old) =
    utilsTimespecAdd (some y) (some x) (some old)
  undone : ∀ old sum, utilsTimespecAdd (some x) (some y) (some old) = (0, some sum) →
    ∀ old', utilsTimespecSubtract (some sum) (some y) (some old') = (0, some x)

/-- What a subtraction gives back is determined by its nanoseconds. -/
theorem utilsTimespecSubtract_ofNanos (hx : x.OnClock) (hy : y.OnClock)
    (hstorable : Storable (x.nanos + y.nanos)) (old : Timespec) :
    utilsTimespecSubtract (some (ofNanos (x.nanos + y.nanos))) (some y) (some old) =
      (0, some x) := by
  have hxlow : 0 ≤ x.nanos := Int.add_nonneg (Int.mul_nonneg hx.sec_nonneg (by decide))
    hx.nsec_nonneg
  have hsum := nanos_ofNanos hstorable
  obtain ⟨diff, hsubtract, hdiff, hnanos⟩ :=
    utilsTimespecSubtract_of_le (onClock_ofNanos hstorable) hy (by omega) old
  have hsame : diff.nanos = x.nanos := by omega
  have hback : diff = x := by
    rw [← hdiff.valid.ofNanos_nanos, hsame, hx.valid.ofNanos_nanos]
  rw [hsubtract, hback]

/-- All valid times after the epoch are added exactly or refused, in either order, and the sum
less the second is the first. -/
theorem utilsTimespecAdd_laws (hx : x.OnClock) (hy : y.OnClock) : AddLaws x y where
  zero_iff old := by
    rw [utilsTimespecAdd_of_onClock hx hy.valid, ← hx.storable_iff hy]
    split_ifs with hstorable
    · exact iff_of_true rfl hstorable
    · exact iff_of_false Int.one_ne_zero hstorable
  refused hlarge old := by
    rw [utilsTimespecAdd_of_onClock hx hy.valid, if_neg (mt (hx.storable_iff hy).mp hlarge)]
  exact hfits old := by
    have hstorable := (hx.storable_iff hy).mpr hfits
    refine ⟨ofNanos (x.nanos + y.nanos), ?_, valid_ofNanos _, nanos_ofNanos hstorable⟩
    rw [utilsTimespecAdd_of_onClock hx hy.valid, if_pos hstorable]
  comm old := by
    rw [utilsTimespecAdd_eq hx.valid hy.valid, utilsTimespecAdd_eq hy.valid hx.valid,
      Int.add_comm]
  undone old sum hadd old' := by
    rw [utilsTimespecAdd_of_onClock hx hy.valid] at hadd
    split_ifs at hadd with hstorable
    · cases hadd
      exact utilsTimespecSubtract_ofNanos hx hy hstorable old'
    · cases hadd

/-- A second is carried, and borrowed again. -/
theorem utilsTimespecAdd_laws_carry :
    utilsTimespecSubtract (some ⟨4, 1⟩) (some ⟨2, 2⟩) (some ⟨0, 0⟩) =
      (0, some ⟨1, 999999999⟩) := by
  have hx : Timespec.OnClock ⟨1, 999999999⟩ := ⟨by decide, by decide, by decide⟩
  have hy : Timespec.OnClock ⟨2, 2⟩ := ⟨by decide, by decide, by decide⟩
  exact (utilsTimespecAdd_laws hx hy).undone ⟨0, 0⟩ ⟨4, 1⟩ (by decide) ⟨0, 0⟩

/-! ## Addition of nanoseconds -/

/-- A sum with a count of nanoseconds is exact or refused, and is what the conversion of the
count and the addition give. -/
structure AddsNanoseconds (x : Timespec) (lnanoSecs : BitVec 64) : Prop where
  refused_iff : ∀ old, (utilsTimespecAddNanoseconds (some x) lnanoSecs (some old)).1 = 1 ↔
    ¬ Storable (x.nanos + lnanoSecs.toInt)
  exact : Storable (x.nanos + lnanoSecs.toInt) → ∀ old, ∃ sum : Timespec,
    utilsTimespecAddNanoseconds (some x) lnanoSecs (some old) = (0, some sum) ∧ sum.Valid ∧
      sum.nanos = x.nanos + lnanoSecs.toInt
  agrees : ∀ old,
    (utilsTimespecAddNanoseconds (some x) lnanoSecs (some old)).1 =
        (utilsTimespecAdd (some x) (some (utilsNanosecondsToTimespec lnanoSecs)) (some old)).1 ∧
      ((utilsTimespecAddNanoseconds (some x) lnanoSecs (some old)).1 = 0 →
        utilsTimespecAddNanoseconds (some x) lnanoSecs (some old) =
          utilsTimespecAdd (some x) (some (utilsNanosecondsToTimespec lnanoSecs)) (some old))

/-- The sum of the nanoseconds alone is not negative, and fits 64 signed bits. -/
def CarriesOnly (x : Timespec) (lnanoSecs : BitVec 64) : Prop :=
  0 ≤ x.tvNsec + lnanoSecs.toInt ∧ x.tvNsec + lnanoSecs.toInt < 2 ^ 63

variable {lnanoSecs : BitVec 64}

/-- The sum with the conversion of the count. -/
theorem utilsTimespecAdd_conversion (hx : x.OnClock) (lnanoSecs : BitVec 64) (old : Timespec) :
    utilsTimespecAdd (some x) (some (utilsNanosecondsToTimespec lnanoSecs)) (some old) =
      (if Storable (x.nanos + lnanoSecs.toInt) then 0 else 1,
        some (ofNanos (x.nanos + lnanoSecs.toInt))) := by
  rw [utilsNanosecondsToTimespec_eq, utilsTimespecAdd_of_onClock hx (valid_ofNanos _),
    nanos_ofNanos_toInt]

/-- Where nothing goes wrong before the carry, the function is that sum. -/
theorem utilsTimespecAddNanoseconds_of_carriesOnly (hx : x.OnClock)
    (hcarries : CarriesOnly x lnanoSecs) (old : Timespec) :
    utilsTimespecAddNanoseconds (some x) lnanoSecs (some old) =
      (if Storable (x.nanos + lnanoSecs.toInt) then 0 else 1,
        some (ofNanos (x.nanos + lnanoSecs.toInt))) := by
  obtain ⟨hnonneg, hfits⟩ := hcarries
  have hpos : (0 : ℤ) < nanosecondsPerSecond := by decide
  have htotal : (BitVec.ofInt 64 x.tvNsec + lnanoSecs).toInt = x.tvNsec + lnanoSecs.toInt := by
    rw [← @BitVec.ofInt_toInt _ lnanoSecs, ← BitVec.ofInt_add, BitVec.ofInt_toInt]
    exact BitVec.toInt_ofInt_eq_self (by decide) (by omega) hfits
  have hlt := Int.emod_lt_of_pos (x.tvNsec + lnanoSecs.toInt) hpos
  have hle := Int.emod_nonneg (x.tvNsec + lnanoSecs.toInt) hpos.ne'
  have hsecond : (nanosecondsPerSecond : ℤ) < 2 ^ 31 := by decide
  have hrest := @toLong_eq ((x.tvNsec + lnanoSecs.toInt) % nanosecondsPerSecond) (by omega)
    (by omega)
  have hnanos : x.nanos + lnanoSecs.toInt =
      x.tvSec.toInt * nanosecondsPerSecond + (x.tvNsec + lnanoSecs.toInt) :=
    Int.add_assoc _ _ _
  have hnormal : ofNanos (x.nanos + lnanoSecs.toInt) =
      ⟨x.tvSec + BitVec.ofInt 64 ((x.tvNsec + lnanoSecs.toInt) / nanosecondsPerSecond),
        (x.tvNsec + lnanoSecs.toInt) % nanosecondsPerSecond⟩ := by
    rw [hnanos, ofNanos_mul_add, BitVec.ofInt_toInt]
  have hsec := hx.sec_nonneg
  have hsec' := x.tvSec.toInt_lt
  have hsign : (ofNanos (x.nanos + lnanoSecs.toInt)).tvSec.toInt < 0 ↔
      ¬ Storable (x.nanos + lnanoSecs.toInt) := by
    apply tvSec_ofNanos_neg_iff
    · simp only [hnanos, nanosecondsPerSecond]
      omega
    · simp only [hnanos, nanosecondsPerSecond]
      omega
  rw [hnormal] at hsign
  simp only [utilsTimespecAddNanoseconds, htotal, if_neg (not_lt.mpr hnonneg),
    Int.tdiv_eq_ediv_of_nonneg hnonneg, Int.tmod_eq_emod_of_nonneg hnonneg, hrest, hsign,
    hnormal]
  split_ifs <;> rfl

/-- Otherwise it refuses. -/
theorem utilsTimespecAddNanoseconds_of_not_carriesOnly (hx : x.OnClock)
    (hcarries : ¬ CarriesOnly x lnanoSecs) (old : Timespec) :
    utilsTimespecAddNanoseconds (some x) lnanoSecs (some old) = (1, some old) := by
  have hneg : (BitVec.ofInt 64 x.tvNsec + lnanoSecs).toInt < 0 := by
    obtain ⟨-, hnonneg, hlt⟩ := hx
    have hcount := lnanoSecs.toInt_lt
    have hcount' := lnanoSecs.le_toInt
    rw [CarriesOnly] at hcarries
    rw [← @BitVec.ofInt_toInt _ lnanoSecs, ← BitVec.ofInt_add, BitVec.toInt_ofInt, Int.bmod_def]
    simp only [nanosecondsPerSecond] at hlt
    omega
  simp only [utilsTimespecAddNanoseconds, if_pos hneg]

/-- For every valid time after the epoch and every count, the sum is exact or refused exactly when
nothing goes wrong before the carry, or the sum cannot be stored anyway. -/
theorem addsNanoseconds_iff (hx : x.OnClock) (lnanoSecs : BitVec 64) :
    AddsNanoseconds x lnanoSecs ↔
      CarriesOnly x lnanoSecs ∨ ¬ Storable (x.nanos + lnanoSecs.toInt) := by
  constructor
  · intro hadds
    by_contra hnot
    obtain ⟨hcarries, hstorable⟩ := not_or.mp hnot
    obtain ⟨sum, hsum, -⟩ := hadds.exact (not_not.mp hstorable) ⟨0, 0⟩
    rw [utilsTimespecAddNanoseconds_of_not_carriesOnly hx hcarries] at hsum
    cases hsum
  · intro hcondition
    by_cases hcarries : CarriesOnly x lnanoSecs
    · have hsame (old : Timespec) := utilsTimespecAddNanoseconds_of_carriesOnly hx hcarries old
      constructor
      · intro old
        rw [hsame]
        split_ifs with hstorable
        · exact iff_of_false Int.zero_ne_one (not_not.mpr hstorable)
        · exact iff_of_true rfl hstorable
      · intro hstorable old
        refine ⟨_, ?_, valid_ofNanos _, nanos_ofNanos hstorable⟩
        rw [hsame, if_pos hstorable]
      · intro old
        rw [hsame, utilsTimespecAdd_conversion hx]
        exact ⟨rfl, fun _ => rfl⟩
    · have hstorable := hcondition.resolve_left hcarries
      have hrefused (old : Timespec) :=
        utilsTimespecAddNanoseconds_of_not_carriesOnly hx hcarries old
      constructor
      · intro old
        rw [hrefused]
        exact iff_of_true rfl hstorable
      · intro hstored
        exact absurd hstored hstorable
      · intro old
        rw [hrefused, utilsTimespecAdd_conversion hx, if_neg hstorable]
        exact ⟨rfl, fun hzero => absurd hzero Int.one_ne_zero⟩

/-- A count that is carried. -/
theorem addsNanoseconds_carried : AddsNanoseconds ⟨5, 999999999⟩ 2000000001 :=
  (addsNanoseconds_iff ⟨by decide, by decide, by decide⟩ 2000000001).mpr
    (.inl ⟨by decide, by decide⟩)

/-- A nanosecond less than five seconds is refused. -/
theorem not_addsNanoseconds :
    utilsTimespecAddNanoseconds (some ⟨5, 0⟩) (-1) (some ⟨0, 0⟩) = (1, some ⟨0, 0⟩) ∧
      utilsTimespecAdd (some ⟨5, 0⟩) (some (utilsNanosecondsToTimespec (-1))) (some ⟨0, 0⟩) =
        (0, some ⟨4, 999999999⟩) ∧
      ¬ ∀ x : Timespec, x.OnClock → ∀ lnanoSecs, AddsNanoseconds x lnanoSecs := by
  refine ⟨by decide, by decide, fun hclaim => ?_⟩
  have hadds := hclaim ⟨5, 0⟩ ⟨by decide, by decide, by decide⟩ (-1)
  obtain ⟨sum, hsum, -⟩ := hadds.exact (by decide) ⟨0, 0⟩
  rw [show utilsTimespecAddNanoseconds (some ⟨5, 0⟩) (-1) (some ⟨0, 0⟩) = (1, some ⟨0, 0⟩)
    by decide] at hsum
  cases hsum

end Cyancore.Posix
