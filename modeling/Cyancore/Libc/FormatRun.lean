/-
# A format in memory

`vprintf` is handed the address of its format and stops at the terminator.  A read behind that
is a fault here, so that a run with a result has made none.

A format can be split wherever a literal or a conversion ends.  Its directives are then those
of the two parts, and so are its items; since nothing else decides what is printed, the parts
print what the whole does.
-/

import Cyancore.Libc.Directives
import Cyancore.Math.Outcome
import Mathlib.Algebra.Order.BigOperators.Group.List
import Mathlib.Data.List.Infix

namespace Cyancore.Libc

open Cyancore.Math

variable {conf : LibcConfig}

/-! ## The loop over the memory -/

/-- Why a run has no result. -/
inductive FormatFault
  | /-- A read behind the terminator. -/
    overread
  | stop (stop : PrintStop)
  deriving DecidableEq, Repr

/-- `*fmt`, so many characters from the start of the format. -/
def charAt (fmt : List Char) (offset : ℕ) : Outcome FormatFault Char :=
  if h : offset < fmt.length then .done fmt[offset]
  else if offset = fmt.length then .done '\x00'
  else .fault .overread

/-- Where the loop is, and what it has done. -/
structure FormatRun (conf : LibcConfig) where
  offset : ℕ
  mode : PrintMode
  st : Printing conf
  deriving DecidableEq, Repr

/-- The loop from one reading of `*fmt` to the next. -/
def printTurn (dev : Device) (fmt : List Char) (run : FormatRun conf) :
    Outcome FormatFault (Turn (FormatRun conf) (ℤ × List Char)) := do
  let c ← charAt fmt run.offset
  if run.mode = .text ∧ c = '\x00' then return .exit (run.st.ret, run.st.emitted)
  match printStep dev c run.mode run.st with
  | .error stop => .fault (.stop stop)
  | .ok (.failed, st) => return .exit (-1, st.emitted)
  | .ok (mode, st) => return .next ⟨run.offset + 1, mode, st⟩

/-- `vprintf` on a format in memory. -/
def vprintfAt (dev : Device) (fmt : List Char) (args : List (Arg conf)) (fuel : ℕ) :
    Outcome FormatFault (ℤ × List Char) :=
  loop (printTurn dev fmt) fuel ⟨0, .text, ⟨[], args, '\x00', 5, 0⟩⟩

/-! ## The loop over the list -/

section Refinement

variable {dev : Device} {fmt front back : List Char} {mode : PrintMode} {st : Printing conf}
  {result : ℤ × List Char}

/-- What a call returns that has ended in a state. -/
def finish (mode : PrintMode) (st : Printing conf) : ℤ × List Char :=
  (if mode = .text then st.ret else -1, st.emitted)

theorem charAt_append (front : List Char) (c : Char) (back : List Char) :
    charAt (front ++ c :: back) front.length = .done c := by
  simp [charAt]

theorem charAt_length (fmt : List Char) : charAt fmt fmt.length = .done '\x00' := by
  simp [charAt]

theorem printLoop_failed (back : List Char) (st : Printing conf) :
    printLoop dev back .failed st = .ok (.failed, st) := by
  induction back with
  | nil => rfl
  | cons c back ih => exact ih

/-- The terminator ends a conversion as an unsupported character does. -/
theorem printStep_terminator (hmode : mode ≠ .text) :
    printStep dev '\x00' mode st = .ok (.failed, st) := by
  cases mode with
  | text => exact absurd rfl hmode
  | conversion lRet padn => rfl
  | width lRet padn => rfl
  | decimals lRet padn => rfl
  | failed => rfl

/-- At the terminator the call returns. -/
theorem printTurn_terminator (fmt : List Char) (mode : PrintMode) (st : Printing conf) :
    printTurn dev fmt ⟨fmt.length, mode, st⟩ = .done (.exit (finish mode st)) := by
  simp only [printTurn, charAt_length, Outcome.done_bind, and_true]
  by_cases hmode : mode = .text
  · rw [if_pos hmode, finish, if_pos hmode]
    rfl
  · rw [if_neg hmode, finish, if_neg hmode, printStep_terminator hmode]
    rfl

/-- A character is a turn of the loop. -/
theorem printTurn_char {c : Char} (hc : c ≠ '\x00') (front back : List Char) (mode : PrintMode)
    (st : Printing conf) :
    printTurn dev (front ++ c :: back) ⟨front.length, mode, st⟩ =
      match printStep dev c mode st with
      | .error stop => .fault (.stop stop)
      | .ok (.failed, st) => .done (.exit (-1, st.emitted))
      | .ok (mode, st) => .done (.next ⟨front.length + 1, mode, st⟩) := by
  simp only [printTurn, charAt_append, Outcome.done_bind, hc, and_false, if_false]
  rfl

/-- From every place in its format, a call returns what the loop over the rest ends with. -/
theorem returns_loop_iff (hnul : '\x00' ∉ front ++ back) :
    Returns (fun fuel => loop (printTurn dev (front ++ back)) fuel ⟨front.length, mode, st⟩)
        result ↔
      ∃ mode' st', printLoop dev back mode st = .ok (mode', st') ∧ finish mode' st' = result := by
  induction back generalizing front mode st with
  | nil =>
      have hturn := @printTurn_terminator conf dev front mode st
      rw [List.append_nil, returns_loop_of_exit hturn]
      constructor
      · exact fun hresult => ⟨mode, st, rfl, hresult⟩
      · rintro ⟨mode', st', hloop, hresult⟩
        cases hloop
        exact hresult
  | cons c back ih =>
      have hc : c ≠ '\x00' := by
        rintro rfl
        exact hnul (List.mem_append_right _ List.mem_cons_self)
      have hturn := @printTurn_char conf dev c hc front back mode st
      cases hstep : printStep dev c mode st with
      | error stop =>
          rw [hstep] at hturn
          refine iff_of_false (not_returns_loop_of_fault hturn) ?_
          rintro ⟨mode', st', hloop, -⟩
          rw [printLoop, hstep] at hloop
          cases hloop
      | ok stepped =>
          obtain ⟨mode', st'⟩ := stepped
          have hloop : printLoop dev (c :: back) mode st = printLoop dev back mode' st' := by
            rw [printLoop, hstep]
            rfl
          rw [hstep] at hturn
          rw [hloop]
          by_cases hfailed : mode' = .failed
          · subst hfailed
            rw [returns_loop_of_exit hturn, printLoop_failed]
            constructor
            · exact fun hresult => ⟨_, _, rfl, hresult⟩
            · rintro ⟨mode', st', hloop, hresult⟩
              cases hloop
              exact hresult
          · have hnext : printTurn dev (front ++ c :: back) ⟨front.length, mode, st⟩ =
                .done (.next ⟨(front ++ [c]).length, mode', st'⟩) := by
              rw [hturn, List.length_append]
              cases mode' with
              | failed => exact absurd rfl hfailed
              | _ => rfl
            have hsplit : front ++ c :: back = (front ++ [c]) ++ back := by simp
            rw [returns_loop_of_next hnext, hsplit]
            exact ih (hsplit ▸ hnul)

/-- A call on a format in memory is the one on its characters. -/
theorem returns_vprintfAt_iff (hnul : '\x00' ∉ fmt) {args : List (Arg conf)} :
    Returns (vprintfAt dev fmt args) result ↔ vprintf dev fmt args = .ok result := by
  have hloop := @returns_loop_iff conf dev [] fmt .text ⟨[], args, '\x00', 5, 0⟩ result hnul
  rw [vprintf]
  refine hloop.trans ?_
  cases printLoop dev fmt .text ⟨[], args, '\x00', 5, 0⟩ with
  | error stop =>
      constructor
      · rintro ⟨mode', st', hrun, -⟩
        cases hrun
      · intro hresult
        cases hresult
  | ok ended =>
      constructor
      · rintro ⟨mode', st', hrun, rfl⟩
        cases hrun
        rfl
      · intro hresult
        exact ⟨ended.1, ended.2, rfl, Except.ok.inj hresult⟩

end Refinement

/-! ## Splitting a format -/

section Split

variable {dev : Device} {fmt front back : List Char} {mode mode' : FormatMode}
  {directive : Directive} {directives directives' : List Directive}
  {args args' rest : List (Arg conf)} {item : Item conf} {items items' : List (Item conf)}

theorem scanFormat_append (front back : List Char) (mode : FormatMode) :
    scanFormat conf (front ++ back) mode =
      ((scanFormat conf back (scanFormat conf front mode).1).1,
        (scanFormat conf front mode).2 ++
          (scanFormat conf back (scanFormat conf front mode).1).2) := by
  induction front generalizing mode with
  | nil => rfl
  | cons c front ih =>
      rw [List.cons_append, scanFormat, scanFormat]
      cases scanChar conf mode c with
      | more mode => exact ih mode
      | directive directive => simp only [ih, List.cons_append]

theorem widthsFit_append (front back : List Char) (mode : FormatMode) :
    widthsFit conf (front ++ back) mode =
      (widthsFit conf front mode && widthsFit conf back (scanFormat conf front mode).1) := by
  induction front generalizing mode with
  | nil => rfl
  | cons c front ih =>
      rw [List.cons_append, widthsFit, widthsFit, scanFormat]
      cases scanChar conf mode c with
      | more mode => simp only [ih, Bool.and_assoc]
      | directive directive => simp only [ih]

/-- A number that is taken is the first of the arguments. -/
theorem exists_taken_num {lRet : ℕ} {num : BitVec conf.long}
    (hnum : getNumVaArgs lRet args = .ok (num, rest)) :
    ∃ arg, args = arg :: rest ∧ ∀ more, getNumVaArgs lRet (arg :: more) = .ok (num, more) := by
  unfold getNumVaArgs at hnum
  split at hnum
  case _ | _ | _ =>
    split_ifs at hnum with hcount
    cases hnum
    refine ⟨_, rfl, fun more => ?_⟩
    simp only [getNumVaArgs, if_pos hcount]
  case _ => cases hnum

theorem exists_taken_unum {lRet : ℕ} {unum : BitVec conf.long}
    (hunum : getUnumVaArgs lRet args = .ok (unum, rest)) :
    ∃ arg, args = arg :: rest ∧ ∀ more, getUnumVaArgs lRet (arg :: more) = .ok (unum, more) := by
  unfold getUnumVaArgs at hunum
  split at hunum
  case _ | _ | _ =>
    split_ifs at hunum with hcount
    cases hunum
    refine ⟨_, rfl, fun more => ?_⟩
    simp only [getUnumVaArgs, if_pos hcount]
  case _ => cases hunum

/-- A directive takes the first arguments, whatever follows them. -/
theorem exists_taken (hitem : directive.item args = some (item, rest)) :
    ∃ taken, args = taken ++ rest ∧ ∀ more, directive.item (taken ++ more) = some (item, more) := by
  cases directive with
  | literal c =>
      cases hitem
      exact ⟨[], rfl, fun _ => rfl⟩
  | percent =>
      cases hitem
      exact ⟨[], rfl, fun _ => rfl⟩
  | signed lRet padn =>
      obtain ⟨num, hnum, rfl⟩ := item_signed_iff.mp hitem
      obtain ⟨arg, rfl, htaken⟩ := exists_taken_num hnum
      exact ⟨[arg], rfl, fun more => item_signed_iff.mpr ⟨num, htaken more, rfl⟩⟩
  | unsigned lRet radix padn =>
      obtain ⟨unum, hunum, rfl⟩ := item_unsigned_iff.mp hitem
      obtain ⟨arg, rfl, htaken⟩ := exists_taken_unum hunum
      exact ⟨[arg], rfl, fun more => item_unsigned_iff.mpr ⟨unum, htaken more, rfl⟩⟩
  | char =>
      cases args with
      | nil => cases hitem
      | cons arg args =>
          cases arg <;> cases hitem
          all_goals exact ⟨[_], rfl, fun _ => rfl⟩
  | str =>
      cases args with
      | nil => cases hitem
      | cons arg args =>
          cases arg <;> cases hitem
          exact ⟨[_], rfl, fun _ => rfl⟩
  | ptr padn =>
      cases args with
      | nil => cases hitem
      | cons arg args =>
          cases arg <;> cases hitem
          exact ⟨[_], rfl, fun _ => rfl⟩

theorem itemsOf_append (directives directives' : List Directive) (args : List (Arg conf)) :
    itemsOf (directives ++ directives') args =
      (itemsOf directives args).bind fun taken =>
        (itemsOf directives' taken.2).map fun all => (taken.1 ++ all.1, all.2) := by
  induction directives generalizing args with
  | nil => simp [itemsOf]
  | cons directive directives ih =>
      rw [List.cons_append, itemsOf_cons, itemsOf_cons, Option.bind_assoc]
      congr 1
      funext taken
      rw [ih]
      cases itemsOf directives taken.2 with
      | none => rfl
      | some all =>
          simp only [Option.bind_some, Option.map_some, Option.map_map]
          rfl

/-- Directives take the first arguments, whatever follows them. -/
theorem exists_taken_all (hitems : itemsOf directives args = some (items, rest)) :
    ∃ taken, args = taken ++ rest ∧
      ∀ more, itemsOf directives (taken ++ more) = some (items, more) := by
  induction directives generalizing args items with
  | nil =>
      cases hitems
      exact ⟨[], rfl, fun _ => rfl⟩
  | cons directive directives ih =>
      obtain ⟨item, middle, items', hitem, hitems', rfl⟩ := exists_of_itemsOf_cons hitems
      obtain ⟨first, rfl, hfirst⟩ := exists_taken hitem
      obtain ⟨others, rfl, hothers⟩ := ih hitems'
      refine ⟨first ++ others, (List.append_assoc _ _ _).symm, fun more => ?_⟩
      rw [itemsOf_cons, List.append_assoc, hfirst, Option.bind_some, hothers]
      rfl

/-- Where items are split, their directives are. -/
theorem exists_split_items (hitems : itemsOf directives args = some (items ++ items', rest)) :
    ∃ front back middle, directives = front ++ back ∧
      itemsOf front args = some (items, middle) ∧ itemsOf back middle = some (items', rest) := by
  induction items generalizing directives args with
  | nil => exact ⟨[], directives, args, rfl, rfl, hitems⟩
  | cons item items ih =>
      cases directives with
      | nil => cases hitems
      | cons directive directives =>
          obtain ⟨item', middle, all, hitem, hitems', hall⟩ := exists_of_itemsOf_cons hitems
          cases hall
          obtain ⟨front, back, middle', rfl, hfront, hback⟩ := ih hitems'
          refine ⟨directive :: front, back, middle', rfl, ?_, hback⟩
          rw [itemsOf_cons, hitem, Option.bind_some, hfront]
          rfl

/-- The first directive of a format ends somewhere in it. -/
theorem exists_first (hscan : (scanFormat conf fmt mode).2 = directive :: directives) :
    ∃ front back, fmt = front ++ back ∧ scanFormat conf front mode = (.text, [directive]) ∧
      (scanFormat conf back .text).2 = directives := by
  induction fmt generalizing mode with
  | nil => cases hscan
  | cons c fmt ih =>
      rw [scanFormat] at hscan
      cases hchar : scanChar conf mode c with
      | more mode' =>
          simp only [hchar] at hscan
          obtain ⟨front, back, rfl, hfront, hback⟩ := ih hscan
          refine ⟨c :: front, back, rfl, ?_, hback⟩
          rw [scanFormat, hchar]
          exact hfront
      | directive directive' =>
          simp only [hchar] at hscan
          cases hscan
          refine ⟨[c], fmt, rfl, ?_, rfl⟩
          rw [scanFormat, hchar]
          rfl

/-- Where directives are split, their format can be. -/
theorem exists_split_format (hscan : (scanFormat conf fmt .text).2 = directives ++ directives') :
    ∃ front back, fmt = front ++ back ∧ scanFormat conf front .text = (.text, directives) ∧
      (scanFormat conf back .text).2 = directives' := by
  induction directives generalizing fmt with
  | nil => exact ⟨[], fmt, rfl, rfl, hscan⟩
  | cons directive directives ih =>
      obtain ⟨front, back, rfl, hfront, hback⟩ := exists_first hscan
      obtain ⟨front', back', rfl, hfront', hback'⟩ := ih hback
      refine ⟨front ++ front', back', (List.append_assoc _ _ _).symm, ?_, hback'⟩
      rw [scanFormat_append, hfront, hfront']
      rfl

/-! ## Composition -/

/-- A call on a format returns, and wherever the format is split, it emits what it does for the
first part on its arguments and then what it does for the second on the others.  If the format is
not whole, it returns −1 and has emitted what it does for the part before the `%` at fault. -/
structure Composes (dev : Device) (fmt : List Char) (args : List (Arg conf)) : Prop where
  returns : ∃ result, Returns (vprintfAt dev fmt args) result
  splits : ∀ front back taken rest items, fmt = front ++ back → args = taken ++ rest →
    Complete conf front → itemsOf (scanFormat conf front .text).2 taken = some (items, []) →
      ∃ ret ret' ret'' emitted emitted', Returns (vprintfAt dev front taken) (ret, emitted) ∧
        Returns (vprintfAt dev back rest) (ret', emitted') ∧
        Returns (vprintfAt dev fmt args) (ret'', emitted ++ emitted')
  unsupported : ∀ front back mode, fmt = front ++ '%' :: back → Complete conf front →
    scanFormat conf ('%' :: back) .text = (mode, []) →
      ∃ ret emitted, Returns (vprintfAt dev front args) (ret, emitted) ∧
        Returns (vprintfAt dev fmt args) (-1, emitted)

/-- The counts of any successive items add up to an `int`, and no number lacks a negation. -/
structure CountsFit (dev : Device) (items : List (Item conf)) : Prop where
  negates : ∀ item ∈ items, ¬ item.NegatesLeast
  fits : ∀ part, part <:+: items → FitsInt conf (counts dev part)

theorem CountsFit.tally (hfit : CountsFit dev items) {part : List (Item conf)}
    (hpart : part <:+: items) : tally dev part 0 = some (0 + counts dev part) := by
  refine (tally_eq_some_iff fitsInt_zero).mpr ⟨rfl, ?_, ?_⟩
  · exact fun item hitem => hfit.negates item (hpart.subset hitem)
  · intro front hfront
    rw [Int.zero_add]
    exact hfit.fits front (hfront.isInfix.trans hpart)

/-- What a call on a part of a format returns. -/
theorem returns_of_countsFit (hfloat : conf.useFloat = false) (hnul : '\x00' ∉ fmt)
    (hwidths : widthsFit conf fmt .text = true)
    (hitems : itemsOf (scanFormat conf fmt .text).2 args = some (items', rest))
    (hfit : CountsFit dev items) (hpart : items' <:+: items) :
    Returns (vprintfAt dev fmt args)
      (if (scanFormat conf fmt .text).1 = .text then 0 + counts dev items' else -1,
        items'.flatMap Item.text) := by
  rw [returns_vprintfAt_iff hnul, vprintf_items hfloat hitems, if_pos hwidths,
    hfit.tally hpart]

/-- No character goes back to the text without a directive. -/
theorem scanChar_ne_text (mode : FormatMode) (c : Char) :
    scanChar conf mode c ≠ .more .text := by
  have hmodifier : ∀ lRet padn, scanModifier conf lRet padn c ≠ .more .text := by
    intro lRet padn hmore
    unfold scanModifier at hmore
    split at hmore <;> cases hmore
  intro hmore
  cases mode with
  | text =>
      simp only [scanChar] at hmore
      split_ifs at hmore
      cases hmore
  | modifiers lRet padn => exact hmodifier lRet padn hmore
  | width lRet padn =>
      simp only [scanChar] at hmore
      split_ifs at hmore
      · cases hmore
      · exact hmodifier lRet padn hmore
  | stopped => cases hmore

/-- A part with characters and without directives does not end in the text. -/
theorem scanFormat_ne_text {c : Char} (hscan : scanFormat conf (c :: fmt) mode = (mode', [])) :
    mode' ≠ .text := by
  induction fmt generalizing c mode with
  | nil =>
      rw [scanFormat] at hscan
      cases hchar : scanChar conf mode c with
      | more middle =>
          rw [hchar] at hscan
          cases hscan
          rintro rfl
          exact scanChar_ne_text mode c hchar
      | directive directive =>
          rw [hchar] at hscan
          cases hscan
  | cons c' fmt ih =>
      rw [scanFormat] at hscan
      cases hchar : scanChar conf mode c with
      | more middle =>
          rw [hchar] at hscan
          exact ih hscan
      | directive directive =>
          rw [hchar] at hscan
          cases hscan

theorem composes_of_countsFit (hfloat : conf.useFloat = false) (hnul : '\x00' ∉ fmt)
    (hwidths : widthsFit conf fmt .text = true)
    (hitems : itemsOf (scanFormat conf fmt .text).2 args = some (items, rest))
    (hfit : CountsFit dev items) : Composes dev fmt args := by
  have hwhole := returns_of_countsFit hfloat hnul hwidths hitems hfit List.infix_rfl
  constructor
  · exact ⟨_, hwhole⟩
  · rintro front back taken rest' items' rfl rfl hcomplete hfront
    obtain ⟨hnul', hnul''⟩ := not_or.mp (mt List.mem_append.mpr hnul)
    have htext : (scanFormat conf front .text).1 = .text := hcomplete
    rw [widthsFit_append, htext, Bool.and_eq_true] at hwidths
    obtain ⟨taken', htaken, hall⟩ := exists_taken_all hfront
    rw [List.append_nil] at htaken
    subst htaken
    rw [scanFormat_append, htext, itemsOf_append, hall, Option.bind_some] at hitems
    obtain ⟨⟨items'', rest''⟩, hback, hsplit⟩ := Option.map_eq_some_iff.mp hitems
    obtain ⟨rfl, rfl⟩ := Prod.mk.inj hsplit
    have hfirst := returns_of_countsFit hfloat hnul' hwidths.1 hfront hfit
      (List.prefix_append _ _).isInfix
    have hsecond := returns_of_countsFit hfloat hnul'' hwidths.2 hback hfit
      (List.suffix_append _ _).isInfix
    rw [List.flatMap_append] at hwhole
    exact ⟨_, _, _, _, _, hfirst, hsecond, hwhole⟩
  · rintro front back mode rfl hcomplete hscan
    obtain ⟨hnul', -⟩ := not_or.mp (mt List.mem_append.mpr hnul)
    have htext : (scanFormat conf front .text).1 = .text := hcomplete
    rw [widthsFit_append, Bool.and_eq_true] at hwidths
    rw [scanFormat_append, htext, hscan, List.append_nil] at hitems
    refine ⟨_, _, returns_of_countsFit hfloat hnul' hwidths.1 hitems hfit List.infix_rfl, ?_⟩
    have hended : (scanFormat conf (front ++ '%' :: back) .text).1 ≠ .text := by
      rw [scanFormat_append, htext, hscan]
      exact scanFormat_ne_text hscan
    rwa [if_neg hended] at hwhole

/-- A call that returns has added up the counts of its items. -/
theorem tally_of_returns (hfloat : conf.useFloat = false) (hnul : '\x00' ∉ fmt)
    (hitems : itemsOf (scanFormat conf fmt .text).2 args = some (items, rest))
    {result : ℤ × List Char} (hresult : Returns (vprintfAt dev fmt args) result) :
    (∀ item ∈ items, ¬ item.NegatesLeast) ∧
      ∀ front, front <+: items → FitsInt conf (counts dev front) := by
  rw [returns_vprintfAt_iff hnul, vprintf_items hfloat hitems] at hresult
  split at hresult
  · cases hresult
  · rename_i ret htally
    split_ifs at htally
    obtain ⟨-, hleast, hfronts⟩ := (tally_eq_some_iff fitsInt_zero).mp htally
    refine ⟨hleast, fun front hfront => ?_⟩
    have hthis := hfronts front hfront
    rwa [Int.zero_add] at hthis

theorem Composes.countsFit (hfloat : conf.useFloat = false) (hnul : '\x00' ∉ fmt)
    (hitems : itemsOf (scanFormat conf fmt .text).2 args = some (items, rest))
    (hcomposes : Composes dev fmt args) : CountsFit dev items := by
  constructor
  · obtain ⟨result, hresult⟩ := hcomposes.returns
    exact (tally_of_returns hfloat hnul hitems hresult).1
  · rintro part ⟨before, after, rfl⟩
    rw [List.append_assoc] at hitems
    obtain ⟨directives, directives', middle, hsplit, hbefore, hrest⟩ := exists_split_items hitems
    obtain ⟨front, back, rfl, hfront, hback⟩ := exists_split_format hsplit
    obtain ⟨taken, rfl, hall⟩ := exists_taken_all hbefore
    have htaken : itemsOf (scanFormat conf front .text).2 taken = some (before, []) := by
      have hthis := hall []
      rwa [List.append_nil, ← show (scanFormat conf front .text).2 = directives by
        rw [hfront]] at hthis
    obtain ⟨-, ret', -, -, emitted', -, hsecond, -⟩ := hcomposes.splits front back taken middle
      before rfl rfl (show (scanFormat conf front .text).1 = .text by rw [hfront]) htaken
    rw [← hback] at hrest
    obtain ⟨-, hnul'⟩ := not_or.mp (mt List.mem_append.mpr hnul)
    exact (tally_of_returns hfloat hnul' hrest hsecond).2 part (List.prefix_append _ _)

/-- `vprintf` composes exactly if no number lacks a negation and the counts of any successive
items add up to an `int`. -/
theorem composes_iff (hfloat : conf.useFloat = false) (hnul : '\x00' ∉ fmt)
    (hwidths : widthsFit conf fmt .text = true)
    (hitems : itemsOf (scanFormat conf fmt .text).2 args = some (items, rest)) :
    Composes dev fmt args ↔ CountsFit dev items :=
  ⟨Composes.countsFit hfloat hnul hitems, composes_of_countsFit hfloat hnul hwidths hitems⟩

theorem counts_append (items items' : List (Item conf)) :
    counts dev (items ++ items') = counts dev items + counts dev items' := by
  rw [counts, List.map_append, List.sum_append]
  rfl

theorem counts_nonneg (hnonneg : ∀ item ∈ items, 0 ≤ item.count dev) : 0 ≤ counts dev items :=
  List.sum_nonneg (List.forall_mem_map.mpr hnonneg)

/-- On a device whose statuses are not negative, only the whole has to be an `int`. -/
theorem countsFit_iff_of_nonneg (hnonneg : ∀ item ∈ items, 0 ≤ item.count dev) :
    CountsFit dev items ↔
      (∀ item ∈ items, ¬ item.NegatesLeast) ∧ counts dev items ≤ conf.intMax := by
  constructor
  · exact fun hfit => ⟨hfit.negates, (hfit.fits items List.infix_rfl).1⟩
  · rintro ⟨hleast, htotal⟩
    refine ⟨hleast, ?_⟩
    rintro part ⟨before, after, rfl⟩
    obtain ⟨hfirst, hafter⟩ := List.forall_mem_append.mp hnonneg
    obtain ⟨hbefore, hpart⟩ := List.forall_mem_append.mp hfirst
    rw [counts_append, counts_append] at htotal
    have hbefore' := counts_nonneg hbefore
    have hpart' := counts_nonneg hpart
    have hafter' := counts_nonneg hafter
    constructor <;> omega

end Split

/-- A padded number, text and a percent sign, and a conversion that is not there. -/
theorem composes_unsupported :
    @Composes (.avr false) (fun _ => 0) "%05d|%%%lq".toList [.int (-42)] := by
  have hnonneg : ∀ item ∈ [.signed (-42) 5, .literal '|', Item.percent],
      0 ≤ @Item.count (.avr false) (fun _ => 0) item := by decide
  refine (composes_iff rfl (by decide) (by decide) rfl).mpr
    ((countsFit_iff_of_nonneg hnonneg).mpr ⟨by decide, by decide⟩)

/-- The least `long` is negated before it is converted. -/
theorem not_composes :
    ¬ @Composes (.rv32 false) (fun _ => 0) "%ld".toList [.long (BitVec.intMin 32)] := by
  rintro ⟨⟨result, hresult⟩, -, -⟩
  rw [returns_vprintfAt_iff (by decide)] at hresult
  have hstops : @vprintf (.rv32 false) (fun _ => 0) "%ld".toList [.long (BitVec.intMin 32)] =
      .error .undefined := by decide
  rw [hstops] at hresult
  cases hresult

end Cyancore.Libc
