/-
# The digit buffer

`unumprint` loop by loop.  The first loop stores the digits of the number, least first, into
a buffer of twenty characters; the second hands out padding, and lowers its own bound instead
of raising the index; the third hands the buffer out from its end.  Every store is checked
against the buffer, every load against the stores before it, and the count against `int`.

What is emitted goes through `__fputc`, which may write a character more than once.
-/

import Cyancore.Libc.RoundTrip
import Cyancore.Math.Outcome
import Mathlib.Data.List.Basic

namespace Cyancore.Libc

open Cyancore.Math

/-! ## The device -/

/-- A stream, as far as `__fputc` tells them apart. -/
inductive Stream
  | stdout
  | stdlog
  | other (device : ℕ)
  deriving DecidableEq, Repr

/-- The calls of `ccpdfs_write` for one character. -/
def ccpdfsWrites (dev : Stream) (enStdout : Bool) (c : Char) : List (Stream × Char) :=
  (dev, c) :: if enStdout then [(.stdout, c)] else []

/-- `__fputc`: a line feed on a console is followed by a carriage return. -/
def fputc (dev : Stream) (enStdout : Bool) (c : Char) : List (Stream × Char) :=
  ccpdfsWrites dev enStdout c ++
    if c = '\n' ∧ (dev = .stdout ∨ dev = .stdlog) then ccpdfsWrites dev enStdout '\r' else []

/-- Any other character is written once. -/
theorem fputc_of_ne {c : Char} (dev : Stream) (hc : c ≠ '\n') : fputc dev false c = [(dev, c)] := by
  rw [fputc, if_neg fun h => hc h.1, List.append_nil]
  rfl

/-! ## The loops -/

/-- How the function can leave its defined behaviour. -/
inductive DigitFault
  | divisionByZero
  | /-- A store or a load past the buffer. -/
    outside
  | /-- A load of what was not stored. -/
    unset
  | overflow
  deriving DecidableEq, Repr

/-- The variables of the first loop; a place of the buffer is null until it is stored to. -/
structure FillState where
  i : ℕ
  buf : List (Option Char)
  unum : ℕ
  deriving DecidableEq, Repr

/-- One turn of the first loop, which has its test at the end. -/
def fillTurn (radix : ℕ) (state : FillState) : Outcome DigitFault (Turn FillState FillState) :=
  if radix = 0 then .fault .divisionByZero
  else if state.i < state.buf.length then
    let stored : FillState :=
      { i := state.i + 1
        buf := state.buf.set state.i (some (digitOf (state.unum % radix)))
        unum := state.unum / radix }
    if 0 < stored.unum then .done (.next stored) else .done (.exit stored)
  else .fault .outside

/-- What was written so far, and `ret`. -/
structure Written where
  writes : List (Stream × Char)
  ret : ℕ
  deriving DecidableEq, Repr

/-- How a character is emitted: the streams, and the largest `int`. -/
structure Sink where
  dev : Stream
  enStdout : Bool
  intMax : ℕ

namespace Sink

variable (sink : Sink)

/-- `__fputc` with what follows it, `ret++`. -/
def put (c : Char) (written : Written) : Outcome DigitFault Written :=
  if written.ret + 1 ≤ sink.intMax then
    .done ⟨written.writes ++ fputc sink.dev sink.enStdout c, written.ret + 1⟩
  else .fault .overflow

/-- One turn of the loop that pads. -/
def padTurn (padc : Char) (i : ℕ) (state : ℤ × Written) :
    Outcome DigitFault (Turn (ℤ × Written) Written) :=
  if i < state.1 then do
    let written ← sink.put padc state.2
    .done (.next (state.1 - 1, written))
  else .done (.exit state.2)

/-- One turn of the loop that hands the digits out. -/
def digitTurn (buf : List (Option Char)) (state : ℤ × Written) :
    Outcome DigitFault (Turn (ℤ × Written) Written) :=
  let i := state.1 - 1
  if 0 ≤ i then
    match buf[i.toNat]? with
    | some (some c) => do
        let written ← sink.put c state.2
        .done (.next (i, written))
    | some none => .fault .unset
    | none => .fault .outside
  else .done (.exit state.2)

/-- The padding, from nothing written. -/
def pad (padc : Char) (padn : ℤ) (i fuel : ℕ) : Outcome DigitFault Written :=
  if 0 < padn then loop (sink.padTurn padc i) fuel (padn, ⟨[], 0⟩) else .done ⟨[], 0⟩

/-- `unumprint`, loop by loop. -/
def unumprintLoops (unum radix : ℕ) (padc : Char) (padn : ℤ) (fuel : ℕ) :
    Outcome DigitFault Written := do
  let filled ← loop (fillTurn radix) fuel ⟨0, List.replicate 20 none, unum⟩
  let written ← sink.pad padc padn filled.i fuel
  loop (sink.digitTurn filled.buf) fuel (filled.i, written)

end Sink

/-! ## What the loops do -/

section Loops

variable {sink : Sink} {radix : ℕ} {padc : Char}

/-- A turn stores a digit behind those that the buffer holds. -/
theorem fillTurn_of_stored (hradix : radix ≠ 0) (room unum : ℕ) (stored : List Char) :
    fillTurn radix
        ⟨stored.length, stored.map some ++ List.replicate (room + 1) none, unum⟩ =
      let next : FillState :=
        ⟨(stored ++ [digitOf (unum % radix)]).length,
          (stored ++ [digitOf (unum % radix)]).map some ++ List.replicate room none, unum / radix⟩
      if 0 < unum / radix then .done (.next next) else .done (.exit next) := by
  have hroom : stored.length < (stored.map some ++ List.replicate (room + 1) none).length := by
    rw [List.length_append, List.length_map, List.length_replicate]
    omega
  have hset : (stored.map some ++ List.replicate (room + 1) none).set stored.length
        (some (digitOf (unum % radix))) =
      (stored ++ [digitOf (unum % radix)]).map some ++ List.replicate room none := by
    simp [List.replicate_succ, List.set_append_right]
  rw [fillTurn, if_neg hradix, if_pos hroom, hset, List.length_append, List.length_singleton]

/-- The buffer takes the digits that there is room for. -/
theorem returns_fillTurn (hradix : radix ≠ 0) (room : ℕ) {unum : ℕ} (stored : List Char)
    {digits : List Char} (hdigits : fillBuf radix room unum = some digits) :
    Returns (fun fuel => loop (fillTurn radix) fuel
        ⟨stored.length, stored.map some ++ List.replicate room none, unum⟩)
      ⟨(stored ++ digits).length,
        (stored ++ digits).map some ++ List.replicate (room - digits.length) none, 0⟩ := by
  induction room generalizing unum stored digits with
  | zero => cases hdigits
  | succ room ih =>
      have hturn := fillTurn_of_stored hradix room unum stored
      dsimp only at hturn
      rw [fillBuf] at hdigits
      by_cases hmore : 0 < unum / radix
      · rw [if_pos hmore] at hdigits hturn
        obtain ⟨rest, hrest, rfl⟩ := Option.map_eq_some_iff.mp hdigits
        have hreturns := ih (stored ++ [digitOf (unum % radix)]) hrest
        rw [List.append_assoc, List.singleton_append] at hreturns
        rw [List.length_cons, Nat.add_sub_add_right]
        exact (returns_loop_of_next hturn).mpr hreturns
      · rw [if_neg hmore] at hdigits hturn
        obtain rfl := Option.some.inj hdigits
        rw [Nat.eq_zero_of_not_pos hmore] at hturn
        exact (returns_loop_of_exit hturn).mpr rfl

/-- What a run of characters adds to what was written. -/
def Written.append (written : Written) (sink : Sink) (text : List Char) : Written :=
  ⟨written.writes ++ text.flatMap (fputc sink.dev sink.enStdout), written.ret + text.length⟩

theorem Written.append_nil (written : Written) : written.append sink [] = written := by
  rw [append, List.flatMap_nil, List.append_nil]
  rfl

theorem Written.append_append (written : Written) (text text' : List Char) :
    (written.append sink text).append sink text' = written.append sink (text ++ text') := by
  simp [append, List.append_assoc, Nat.add_assoc]

theorem put_of_le {written : Written} {c : Char} (h : written.ret + 1 ≤ sink.intMax) :
    sink.put c written = .done (written.append sink [c]) := by
  rw [Sink.put, if_pos h, Written.append, List.flatMap_singleton]
  rfl

/-- The padding fills the field up, as many times as the bound is above the index. -/
theorem returns_padTurn {i : ℕ} (count : ℕ) {padn : ℤ} {written : Written}
    (hcount : (padn - i).toNat = count) (hret : written.ret + count ≤ sink.intMax) :
    Returns (fun fuel => loop (sink.padTurn padc i) fuel (padn, written))
      (written.append sink (List.replicate count padc)) := by
  induction count generalizing padn written with
  | zero =>
      have hend : ¬ (i : ℤ) < padn := by omega
      have hexit : sink.padTurn padc i (padn, written) = .done (.exit written) := if_neg hend
      rw [List.replicate_zero, Written.append_nil]
      exact (returns_loop_of_exit hexit).mpr rfl
  | succ count ih =>
      have hmore : (i : ℤ) < padn := by omega
      have hput := put_of_le (c := padc) (show written.ret + 1 ≤ sink.intMax by omega)
      have hnext : sink.padTurn padc i (padn, written) =
          .done (.next (padn - 1, written.append sink [padc])) := by
        rw [Sink.padTurn, if_pos hmore, hput]
        rfl
      have hret' : (written.append sink [padc]).ret + count ≤ sink.intMax := by
        simp only [Written.append, List.length_singleton]
        omega
      have hless : (padn - 1 - i).toNat = count := by omega
      have hreturns := ih hless hret'
      rw [Written.append_append] at hreturns
      exact (returns_loop_of_next hnext).mpr hreturns

/-- The digits come out from the last to the first. -/
theorem returns_digitTurn {digits : List Char} {rest : List (Option Char)} (i : ℕ)
    {written : Written} (hi : i ≤ digits.length) (hret : written.ret + i ≤ sink.intMax) :
    Returns (fun fuel => loop (sink.digitTurn (digits.map some ++ rest)) fuel (i, written))
      (written.append sink (digits.take i).reverse) := by
  induction i generalizing written with
  | zero =>
      have hexit : sink.digitTurn (digits.map some ++ rest) ((0 : ℕ), written) =
          .done (.exit written) := rfl
      rw [List.take_zero, List.reverse_nil, Written.append_nil]
      exact (returns_loop_of_exit hexit).mpr rfl
  | succ i ih =>
      have hload : (digits.map some ++ rest)[i]? = some (some digits[i]) := by
        rw [List.getElem?_append_left (by rwa [List.length_map]), List.getElem?_map,
          List.getElem?_eq_getElem hi]
        rfl
      have hindex : ((i + 1 : ℕ) : ℤ) - 1 = i := by omega
      have hput := put_of_le (c := digits[i]) (show written.ret + 1 ≤ sink.intMax by omega)
      have hnext : sink.digitTurn (digits.map some ++ rest) ((i + 1 : ℕ), written) =
          .done (.next (i, written.append sink [digits[i]])) := by
        rw [Sink.digitTurn]
        dsimp only
        rw [hindex, if_pos (Int.natCast_nonneg i), Int.toNat_natCast, hload]
        dsimp only
        rw [hput]
        rfl
      have hret' : (written.append sink [digits[i]]).ret + i ≤ sink.intMax := by
        simp only [Written.append, List.length_singleton]
        omega
      have htake : (digits.take (i + 1)).reverse = [digits[i]] ++ (digits.take i).reverse := by
        rw [← List.take_append_getElem hi, List.reverse_append]
        rfl
      have hreturns := ih (Nat.le_of_succ_le hi) hret'
      rw [Written.append_append, ← htake] at hreturns
      exact (returns_loop_of_next hnext).mpr hreturns

end Loops

/-! ## The function -/

section Function

variable {sink : Sink} {unum radix : ℕ} {padc : Char} {padn : ℤ}

theorem pad_of_pos (hpadn : 0 < padn) (i : ℕ) :
    sink.pad padc padn i = fun fuel => loop (sink.padTurn padc i) fuel (padn, ⟨[], 0⟩) := by
  funext fuel
  exact if_pos hpadn

theorem pad_of_not_pos (hpadn : ¬ 0 < padn) (i : ℕ) :
    sink.pad padc padn i = fun _ => .done ⟨[], 0⟩ := by
  funext fuel
  exact if_neg hpadn

theorem fuelMono_pad (i : ℕ) : FuelMono (sink.pad padc padn i) := by
  by_cases hpadn : 0 < padn
  · rw [pad_of_pos hpadn]
    exact fuelMono_loop _ _
  · rw [pad_of_not_pos hpadn]
    exact fuelMono_const _

theorem returns_pad {i : ℕ} (hret : (padn - i).toNat ≤ sink.intMax) :
    Returns (sink.pad padc padn i)
      (Written.append ⟨[], 0⟩ sink
        (if 0 < padn then List.replicate (padn - i).toNat padc else [])) := by
  by_cases hpadn : 0 < padn
  · rw [if_pos hpadn, pad_of_pos hpadn]
    exact returns_padTurn _ rfl (by rwa [Nat.zero_add])
  · rw [if_neg hpadn, pad_of_not_pos hpadn, Written.append_nil]
    exact returns_done_iff.mpr rfl

/-- The function emits what the short form of it says, and returns the number of characters. -/
theorem returns_unumprintLoops (hradix : radix ≠ 0) {text : List Char}
    (htext : unumprint unum radix padc padn = .ok text) (hret : text.length ≤ sink.intMax) :
    Returns (sink.unumprintLoops unum radix padc padn)
      (Written.append ⟨[], 0⟩ sink text) := by
  cases hdigits : fillBuf radix 20 unum with
  | none =>
      rw [unumprint, hdigits] at htext
      cases htext
  | some digits =>
      rw [unumprint, hdigits] at htext
      obtain rfl := Except.ok.inj htext
      have hfill := returns_fillTurn hradix 20 [] hdigits
      rw [List.nil_append] at hfill
      rw [List.length_append, List.length_reverse] at hret
      have hroom : (padn - digits.length).toNat ≤ sink.intMax := by
        split at hret
        · rw [List.length_replicate] at hret
          omega
        · omega
      have hpad := @returns_pad sink padc padn _ hroom
      have hout := @returns_digitTurn sink digits
        (List.replicate (20 - digits.length) none) digits.length _ le_rfl
        (show (Written.append ⟨[], 0⟩ sink
            (if 0 < padn then List.replicate (padn - digits.length).toNat padc else [])).ret +
          digits.length ≤ sink.intMax by simpa [Written.append] using hret)
      rw [List.take_length, Written.append_append] at hout
      refine (returns_bind_iff (fuelMono_loop _ _) fun filled => ?_).mpr ⟨_, hfill, ?_⟩
      · exact (fuelMono_pad filled.i).bind fun _ => fuelMono_loop _ _
      · exact (returns_bind_iff (fuelMono_pad _) fun _ => fuelMono_loop _ _).mpr ⟨_, hpad, hout⟩

end Function

/-- The function stays inside its buffer and emits padding and digits, and returns how many
characters that is. -/
structure PrintsDigits (sink : Sink) (unum radix : ℕ) (padc : Char) (padn : ℤ)
    (written : Written) : Prop where
  returns : Returns (sink.unumprintLoops unum radix padc padn) written
  writes : written.writes =
    (List.replicate (max 0 (padn - (Nat.toDigits radix unum).length)).toNat padc ++
      Nat.toDigits radix unum).flatMap (fputc sink.dev sink.enStdout)
  ret : (written.ret : ℤ) =
    max 0 (padn - (Nat.toDigits radix unum).length) + (Nat.toDigits radix unum).length

theorem digitChar_ne_newline {digit : ℕ} (hdigit : digit < 16) : digit.digitChar ≠ '\n' := by
  interval_cases digit <;> decide

/-- No digit is a line feed. -/
theorem newline_notMem_toDigits {radix : ℕ} (hone : 1 < radix) (hsixteen : radix ≤ 16)
    (unum : ℕ) : '\n' ∉ Nat.toDigits radix unum := by
  induction unum using Nat.strong_induction_on with
  | _ unum ih =>
    by_cases hlast : unum < radix
    · rw [Nat.toDigits_of_lt_base hlast, List.mem_singleton]
      exact (digitChar_ne_newline (hlast.trans_le hsixteen)).symm
    · have hbase := not_lt.mp hlast
      have hless : unum / radix < unum := Nat.div_lt_self (by omega) hone
      rw [Nat.toDigits_of_base_le hone hbase, List.mem_append, List.mem_singleton, not_or]
      exact ⟨ih _ hless, (digitChar_ne_newline
        ((Nat.mod_lt unum (by omega)).trans_le hsixteen)).symm⟩

/-- Where nothing is copied to the console and the pad character is no line feed, every
character is written once. -/
theorem PrintsDigits.writes_eq_map {dev : Stream} {intMax unum radix : ℕ} {padc : Char} {padn : ℤ}
    {written : Written} (h : PrintsDigits ⟨dev, false, intMax⟩ unum radix padc padn written)
    (hone : 1 < radix) (hsixteen : radix ≤ 16) (hpadc : padc ≠ '\n') :
    written.writes =
      (List.replicate (max 0 (padn - (Nat.toDigits radix unum).length)).toNat padc ++
        Nat.toDigits radix unum).map (Prod.mk dev) := by
  have hplain : ∀ c ∈ List.replicate (max 0 (padn - (Nat.toDigits radix unum).length)).toNat padc ++
      Nat.toDigits radix unum, fputc dev false c = [(dev, c)] := by
    intro c hc
    apply fputc_of_ne
    rintro rfl
    rcases List.mem_append.mp hc with hpad | hdigit
    · exact hpadc (List.eq_of_mem_replicate hpad).symm
    · exact newline_notMem_toDigits hone hsixteen unum hdigit
  rw [h.writes, List.map_eq_flatMap]
  exact List.flatMap_congr hplain

/-- For a number of 64 bits, whatever the pad character and the width are. -/
theorem exists_printsDigits (conf : LibcConfig) (dev : Stream) (enStdout : Bool)
    (unum radix : ℕ) (padc : Char) (padn : ℤ) (hunum : unum < 2 ^ 64)
    (hradix : radix = 10 ∨ radix = 16) (hpadn : padn ≤ conf.intMax) :
    ∃ written, PrintsDigits ⟨dev, enStdout, conf.intMax⟩ unum radix padc padn written := by
  have hbounds : 1 < radix ∧ radix ≤ 16 ∧ 10 ≤ radix := by omega
  have hroom : unum < radix ^ 20 :=
    (hunum.trans (show 2 ^ 64 < 10 ^ 20 by decide)).trans_le (Nat.pow_le_pow_left hbounds.2.2 20)
  have htext := unumprint_of_lt hbounds.1 hbounds.2.1 hroom padc padn
  have hdigits : (Nat.toDigits radix unum).length ≤ 20 :=
    (Nat.length_toDigits_le_iff hbounds.1 (by decide)).mpr hroom
  have hint := conf.le_intMax
  have hlength : (List.replicate (padn - (Nat.toDigits radix unum).length).toNat padc ++
      Nat.toDigits radix unum).length ≤ conf.intMax := by
    rw [List.length_append, List.length_replicate]
    omega
  have hmax : (max 0 (padn - (Nat.toDigits radix unum).length)).toNat =
      (padn - (Nat.toDigits radix unum).length).toNat := by omega
  refine ⟨_, returns_unumprintLoops (by omega) htext hlength, ?_, ?_⟩
  · rw [hmax, Written.append, List.nil_append]
  · rw [Written.append, List.length_append, List.length_replicate]
    dsimp only
    omega

theorem exists_printsDigits_padded :
    ∃ written, PrintsDigits ⟨.stdout, false, (LibcConfig.rv32 true).intMax⟩ 255 16 '0' 8 written :=
  exists_printsDigits (LibcConfig.rv32 true) .stdout false 255 16 '0' 8 (by decide) (by decide)
    (by decide)

end Cyancore.Libc
