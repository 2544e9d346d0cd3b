/-
# The precision of a floating-point conversion

With floating point, a conversion may carry a number of decimals, which `vprintf` keeps in a
variable that it sets before its loop and not again.  A conversion that carries none therefore
gets the number that was written last.

A format is read here as its precisions and its floating-point conversions in their order, each
of which knows the precision of its own.  What the conversions receive is compared with that.
-/

import Cyancore.Libc.PrintFloat

namespace Cyancore.Libc

open Cyancore.Math

variable {conf : LibcConfig}

/-! ## Calls with floating point -/

/-- A call of `fltprint`. -/
structure FloatCall where
  flt : ℚ
  padc : Char
  padd : ℤ
  padf : ℕ
  deriving DecidableEq, Repr

/-- A call of `vprintf` with floating point: the arguments up to the next `double`, those behind
it, and the calls that were made so far. -/
structure FloatPrinting (conf : LibcConfig) where
  st : Printing conf
  later : List (ℚ × List (Arg conf))
  calls : List FloatCall
  deriving DecidableEq, Repr

/-- The `padn` of a conversion. -/
def PrintMode.padn : PrintMode → ℤ
  | .conversion _ padn => padn
  | .width _ padn => padn
  | .decimals _ padn => padn
  | .text | .failed => 0

/-- `ret += fltprint(...)`, after which the conversion is done. -/
def emitFloat (flt : ℚ) (padn : ℤ) (run : FloatPrinting conf) :
    Except PrintStop (PrintMode × FloatPrinting conf) := do
  let (ret, chars) ← fltprint conf flt run.st.padc padn run.st.padf
  let st ← run.st.emit chars ret
  let call : FloatCall := ⟨flt, run.st.padc, padn, run.st.padf⟩
  return (.text, { run with st := st, calls := run.calls ++ [call] })

/-- The conversion `f`. -/
def convertFloat (padn : ℤ) (run : FloatPrinting conf) :
    Except PrintStop (PrintMode × FloatPrinting conf) :=
  match run.st.args, run.later with
  | [], (flt, args) :: later =>
      if flt < 0 then do
        let st ← run.st.emit ['-'] 0
        emitFloat (-flt) (padn - 1) ⟨st.withArgs args, later, run.calls⟩
      else emitFloat flt padn ⟨run.st.withArgs args, later, run.calls⟩
  | _, _ => .error .undefined

/-- Go on where the loop has stopped for a floating-point conversion. -/
def goOn (padn : ℤ) (run : FloatPrinting conf) :
    Except PrintStop (PrintMode × Printing conf) → Except PrintStop (PrintMode × FloatPrinting conf)
  | .ok (mode, st) => .ok (mode, { run with st := st })
  | .error .floating => convertFloat padn run
  | .error .undefined => .error .undefined

/-- One character of the format. -/
def floatStep (dev : Device) (c : Char) (mode : PrintMode) (run : FloatPrinting conf) :
    Except PrintStop (PrintMode × FloatPrinting conf) :=
  goOn mode.padn run (printStep dev c mode run.st)

/-- The loop over the format. -/
def floatLoop (dev : Device) : List Char → PrintMode → FloatPrinting conf →
    Except PrintStop (PrintMode × FloatPrinting conf)
  | [], mode, run => .ok (mode, run)
  | c :: fmt, mode, run => do
      let (mode, run) ← floatStep dev c mode run
      floatLoop dev fmt mode run

/-- `vprintf` with floating point: what it returns, what it emits and its calls of `fltprint`. -/
def vprintfFloat (dev : Device) (fmt : List Char) (args : List (Arg conf))
    (later : List (ℚ × List (Arg conf))) : Except PrintStop (ℤ × List Char × List FloatCall) := do
  let (mode, run) ← floatLoop dev fmt .text ⟨⟨[], args, '\x00', 5, 0⟩, later, []⟩
  return (if mode = .text then run.st.ret else -1, run.st.emitted, run.calls)

/-! ## Precisions -/

/-- A precision that is written, or a floating-point conversion with its own one. -/
inductive PrecisionEvent
  | written (n : ℕ)
  | float (own : Option ℕ)
  deriving DecidableEq, Repr

/-- Where in a conversion a reader of precisions is. -/
inductive PrecisionMode
  | text
  | modifiers (own : Option ℕ)
  | width (own : Option ℕ)
  | decimals (n : ℕ)
  | stopped
  deriving DecidableEq, Repr

def precisionModifier (own : Option ℕ) (c : Char) : PrecisionMode × List PrecisionEvent :=
  match c with
  | 'i' | 'd' | 'c' | 's' | 'p' | 'x' | 'u' | '%' => (.text, [])
  | 'z' | 'l' => (.modifiers own, [])
  | 'f' => (.text, [.float own])
  | '0' => (.width own, [])
  | '.' => (.decimals 0, [])
  | _ => (.stopped, [])

def precisionChar (mode : PrecisionMode) (c : Char) : PrecisionMode × List PrecisionEvent :=
  match mode with
  | .text => if c = '%' then (.modifiers none, []) else (.text, [])
  | .modifiers own => precisionModifier own c
  | .width own => if isDigit c then (.width own, []) else precisionModifier own c
  | .decimals n =>
      if isDigit c then (.decimals (n * 10 + (c.toNat - '0'.toNat)), [])
      else
        let (mode, events) := precisionModifier (some n) c
        (mode, .written n :: events)
  | .stopped => (.stopped, [])

/-- The precisions and the floating-point conversions of a format. -/
def precisionEvents : List Char → PrecisionMode → List PrecisionEvent
  | [], _ => []
  | c :: fmt, mode =>
      (precisionChar mode c).2 ++ precisionEvents fmt (precisionChar mode c).1

/-- The precision that was written last, or `padf` if none was. -/
def inForce : List PrecisionEvent → ℕ → ℕ
  | [], padf => padf
  | .written n :: events, _ => inForce events n
  | .float _ :: events, padf => inForce events padf

/-- What the conversions would receive if each had the precision that was written last. -/
def received : List PrecisionEvent → ℕ → List ℕ
  | [], _ => []
  | .written n :: events, _ => received events n
  | .float _ :: events, padf => padf :: received events padf

/-- What the conversions should receive: their own precision, or 5. -/
def expected : List PrecisionEvent → List ℕ
  | [] => []
  | .written _ :: events => expected events
  | .float own :: events => own.getD 5 :: expected events

/-! ## What is emitted keeps the precision -/

section Kept

variable {dev : Device} {st st' : Printing conf} {mode : PrintMode} {c : Char}

theorem padf_of_emit {chars : List Char} {count : ℤ} (hemit : st.emit chars count = .ok st') :
    st'.padf = st.padf := by
  rw [emit_eq_ite] at hemit
  split_ifs at hemit
  cases hemit
  rfl

theorem padf_of_emit_text {chars : List Char} {count : ℤ}
    (hemit : (st.emit chars count >>= fun st => pure (PrintMode.text, st)) = .ok (mode, st')) :
    mode = .text ∧ st'.padf = st.padf := by
  rw [emit_text, emitted] at hemit
  split_ifs at hemit
  cases hemit
  exact ⟨rfl, rfl⟩

theorem padf_of_emitUnum {unum radix : ℕ} {padn : ℤ}
    (hemit : st.emitUnum unum radix padn = .ok (mode, st')) :
    mode = .text ∧ st'.padf = st.padf := by
  rw [Printing.emitUnum] at hemit
  cases hchars : unumprint unum radix st.padc padn with
  | error stop => simp [hchars, bind, Except.bind] at hemit
  | ok chars =>
      rw [hchars] at hemit
      exact padf_of_emit_text hemit

theorem padf_of_emitNum {lRet : ℕ} {padn : ℤ} (hemit : st.emitNum lRet padn = .ok (mode, st')) :
    mode = .text ∧ st'.padf = st.padf := by
  rw [Printing.emitNum] at hemit
  cases hnum : getNumVaArgs lRet st.args with
  | error stop => simp [hnum, bind, Except.bind] at hemit
  | ok taken =>
      simp only [hnum, bind, Except.bind] at hemit
      by_cases hneg : taken.1.toInt < 0
      · by_cases hmin : taken.1 = BitVec.intMin conf.long
        · simp only [if_pos hneg, if_pos hmin] at hemit
          cases hemit
        · simp only [if_pos hneg, if_neg hmin] at hemit
          cases hsign : (st.withArgs taken.2).emit ['-'] 0 with
          | error stop => simp [hsign] at hemit
          | ok middle =>
              simp only [hsign] at hemit
              obtain ⟨htext, hpadf⟩ := padf_of_emitUnum hemit
              have hsame := padf_of_emit hsign
              exact ⟨htext, hpadf.trans hsame⟩
      · simp only [if_neg hneg] at hemit
        have hkept := padf_of_emitUnum hemit
        exact hkept

theorem padf_of_unum {lRet radix : ℕ} {padn : ℤ}
    (hemit : (getUnumVaArgs lRet st.args >>= fun taken =>
      (st.withArgs taken.2).emitUnum taken.1.toNat radix padn) = .ok (mode, st')) :
    mode = .text ∧ st'.padf = st.padf := by
  cases hunum : getUnumVaArgs lRet st.args with
  | error stop => simp [hunum, bind, Except.bind] at hemit
  | ok taken =>
      simp only [hunum, bind, Except.bind] at hemit
      have hkept := padf_of_emitUnum hemit
      exact hkept

end Kept

/-! ## One character -/

section Step

variable {dev : Device} {st st' : Printing conf} {run run' : FloatPrinting conf}
  {mode mode' : PrintMode} {pmode : PrecisionMode} {c : Char} {lRet : ℕ} {padn : ℤ} {padf : ℕ}

/-- Between two characters, the variable holds the precision that was written last, or what has
been read of the next one. -/
def Tracks (mode : PrintMode) (pmode : PrecisionMode) (padf last : ℕ) : Prop :=
  match mode, pmode with
  | .text, .text => padf = last
  | .conversion _ _, .modifiers _ => padf = last
  | .width _ _, .width _ => padf = last
  | .decimals _ _, .decimals n => padf = n
  | .failed, .stopped => True
  | _, _ => False

/-- A character of a conversion that is not the floating-point one writes no precision. -/
theorem convert_tracks (hfloat : conf.useFloat = true)
    (hconvert : convert dev lRet padn c st = .ok (mode, st')) (own : Option ℕ) :
    (precisionModifier own c).2 = [] ∧
      Tracks mode (precisionModifier own c).1 st'.padf st.padf := by
  have htext : ∀ {events : List PrecisionEvent}, events = [] → mode = .text ∧ st'.padf = st.padf →
      events = [] ∧ Tracks mode .text st'.padf st.padf := by
    rintro events hnone ⟨rfl, hpadf⟩
    exact ⟨hnone, hpadf⟩
  unfold convert at hconvert
  split at hconvert
  case _ | _ => exact htext rfl (padf_of_emitNum hconvert)
  case _ =>
    split at hconvert
    · have hkept := padf_of_emit_text hconvert
      exact htext rfl hkept
    · have hkept := padf_of_emit_text hconvert
      exact htext rfl hkept
    · cases hconvert
  case _ =>
    split at hconvert
    · have hkept := padf_of_emit_text hconvert
      exact htext rfl hkept
    · cases hconvert
  case _ =>
    split at hconvert
    · rename_i value args hargs
      cases hhex : (st.withArgs args).emit ['0', 'x'] 2 with
      | error stop => simp [hhex, bind, Except.bind] at hconvert
      | ok middle =>
          simp only [hhex, bind, Except.bind] at hconvert
          obtain ⟨hmode, hpadf⟩ := padf_of_emitUnum hconvert
          have hsame := padf_of_emit hhex
          exact htext rfl ⟨hmode, hpadf.trans hsame⟩
    · cases hconvert
  case _ => exact htext rfl (padf_of_unum hconvert)
  case _ =>
    cases hconvert
    exact ⟨rfl, rfl⟩
  case _ =>
    cases hconvert
    exact ⟨rfl, rfl⟩
  case _ => exact htext rfl (padf_of_unum hconvert)
  case _ =>
    rw [if_pos hfloat] at hconvert
    cases hconvert
  case _ =>
    cases hconvert
    exact ⟨rfl, rfl⟩
  case _ =>
    rw [if_pos hfloat] at hconvert
    cases hconvert
    exact ⟨rfl, rfl⟩
  case _ =>
    have hkept := padf_of_emit_text hconvert
    exact htext rfl hkept
  case _ =>
    cases hconvert
    refine ⟨?_, ?_⟩
    · unfold precisionModifier
      split <;> first | contradiction | rfl
    · unfold precisionModifier
      split <;> first | contradiction | trivial

/-! ## Where the loop stops for floating point -/

theorem bind_ne_floating {α β : Type} {first : Except PrintStop α} {rest : α → Except PrintStop β}
    (hfirst : first ≠ .error .floating) (hrest : ∀ value, rest value ≠ .error .floating) :
    (first >>= rest) ≠ .error .floating := by
  cases first with
  | error stop =>
      intro hstop
      cases hstop
      exact hfirst rfl
  | ok value => exact hrest value

theorem emit_ne_floating (chars : List Char) (count : ℤ) :
    st.emit chars count ≠ .error .floating := by
  rw [emit_eq_ite]
  split_ifs <;> exact nofun

theorem emitUnum_ne_floating (unum radix : ℕ) (padn : ℤ) :
    st.emitUnum unum radix padn ≠ .error .floating := by
  refine bind_ne_floating ?_ fun chars => bind_ne_floating (emit_ne_floating _ _) nofun
  unfold unumprint
  split <;> exact nofun

theorem getNumVaArgs_ne_floating (lRet : ℕ) (args : List (Arg conf)) :
    getNumVaArgs lRet args ≠ .error .floating := by
  unfold getNumVaArgs
  split <;> try split_ifs
  all_goals exact nofun

theorem getUnumVaArgs_ne_floating (lRet : ℕ) (args : List (Arg conf)) :
    getUnumVaArgs lRet args ≠ .error .floating := by
  unfold getUnumVaArgs
  split <;> try split_ifs
  all_goals exact nofun

theorem emitNum_ne_floating (lRet : ℕ) (padn : ℤ) :
    st.emitNum lRet padn ≠ .error .floating := by
  refine bind_ne_floating (getNumVaArgs_ne_floating _ _) fun taken => ?_
  dsimp only
  split_ifs
  · exact nofun
  · exact bind_ne_floating (emit_ne_floating _ _) fun _ => emitUnum_ne_floating _ _ _
  · exact emitUnum_ne_floating _ _ _

/-- Only `f` stops a conversion for floating point. -/
theorem eq_of_convert_floating (hconvert : convert dev lRet padn c st = .error .floating) :
    c = 'f' := by
  have htext : ∀ {st : Printing conf} {chars : List Char} {count : ℤ},
      (st.emit chars count >>= fun st => pure (PrintMode.text, st)) ≠ .error .floating :=
    bind_ne_floating (emit_ne_floating _ _) nofun
  have hunum : ∀ radix, (getUnumVaArgs lRet st.args >>= fun taken =>
      (st.withArgs taken.2).emitUnum taken.1.toNat radix padn) ≠ .error .floating := fun radix =>
    bind_ne_floating (getUnumVaArgs_ne_floating _ _) fun _ => emitUnum_ne_floating _ _ _
  by_contra hother
  unfold convert at hconvert
  split at hconvert
  case _ | _ => exact emitNum_ne_floating _ _ hconvert
  case _ =>
    split at hconvert
    · exact htext hconvert
    · exact htext hconvert
    · cases hconvert
  case _ =>
    split at hconvert
    · exact htext hconvert
    · cases hconvert
  case _ =>
    split at hconvert
    · exact bind_ne_floating (emit_ne_floating _ _) (fun _ => emitUnum_ne_floating _ _ _) hconvert
    · cases hconvert
  case _ => exact hunum 16 hconvert
  case _ => cases hconvert
  case _ => cases hconvert
  case _ => exact hunum 10 hconvert
  case _ => exact hother rfl
  case _ => cases hconvert
  case _ => split_ifs at hconvert
  case _ => exact htext hconvert
  case _ => cases hconvert

/-- A call of `fltprint` receives the variable, which it leaves as it was. -/
theorem calls_of_emitFloat {flt : ℚ} (hemit : emitFloat flt padn run = .ok (mode, run')) :
    mode = .text ∧ run'.st.padf = run.st.padf ∧
      run'.calls.map FloatCall.padf = run.calls.map FloatCall.padf ++ [run.st.padf] := by
  rw [emitFloat] at hemit
  cases hcall : fltprint conf flt run.st.padc padn run.st.padf with
  | error stop => simp [hcall, bind, Except.bind] at hemit
  | ok printed =>
      cases hput : run.st.emit printed.2 printed.1 with
      | error stop => simp [hcall, hput, bind, Except.bind] at hemit
      | ok st =>
          simp only [hcall, hput, bind, Except.bind, pure, Except.pure, Except.ok.injEq,
            Prod.mk.injEq] at hemit
          obtain ⟨rfl, rfl⟩ := hemit
          exact ⟨rfl, padf_of_emit hput, List.map_append⟩

theorem calls_of_convertFloat (hconvert : convertFloat padn run = .ok (mode, run')) :
    mode = .text ∧ run'.st.padf = run.st.padf ∧
      run'.calls.map FloatCall.padf = run.calls.map FloatCall.padf ++ [run.st.padf] := by
  unfold convertFloat at hconvert
  split at hconvert
  case _ flt args later _ _ =>
    by_cases hneg : flt < 0
    · rw [if_pos hneg] at hconvert
      cases hsign : run.st.emit ['-'] 0 with
      | error stop => simp [hsign, bind, Except.bind] at hconvert
      | ok st =>
          simp only [hsign, bind, Except.bind] at hconvert
          rw [← padf_of_emit hsign]
          have hcalls := calls_of_emitFloat hconvert
          exact hcalls
    · rw [if_neg hneg] at hconvert
      have hcalls := calls_of_emitFloat hconvert
      exact hcalls
  case _ => cases hconvert

/-- At a conversion character, the loop makes the calls that its precisions say. -/
theorem goOn_tracks (hfloat : conf.useFloat = true) {padn' : ℤ}
    (hstep : goOn padn' run (convert dev lRet padn c run.st) = .ok (mode', run'))
    (own : Option ℕ) :
    run'.calls.map FloatCall.padf =
        run.calls.map FloatCall.padf ++ received (precisionModifier own c).2 run.st.padf ∧
      Tracks mode' (precisionModifier own c).1 run'.st.padf
        (inForce (precisionModifier own c).2 run.st.padf) := by
  cases hconvert : convert dev lRet padn c run.st with
  | ok converted =>
      rw [hconvert] at hstep
      cases hstep
      obtain ⟨hnone, htracks⟩ := convert_tracks hfloat hconvert own
      rw [hnone]
      exact ⟨(List.append_nil _).symm, htracks⟩
  | error stop =>
      rw [hconvert] at hstep
      cases stop with
      | undefined => cases hstep
      | floating =>
          obtain rfl := eq_of_convert_floating hconvert
          obtain ⟨rfl, hpadf, hcalls⟩ := calls_of_convertFloat hstep
          exact ⟨hcalls, hpadf⟩

/-- One character makes the calls that its precisions say. -/
theorem floatStep_tracks (hfloat : conf.useFloat = true)
    (hstep : floatStep dev c mode run = .ok (mode', run')) {last : ℕ}
    (htracks : Tracks mode pmode run.st.padf last) :
    run'.calls.map FloatCall.padf =
        run.calls.map FloatCall.padf ++ received (precisionChar pmode c).2 last ∧
      Tracks mode' (precisionChar pmode c).1 run'.st.padf
        (inForce (precisionChar pmode c).2 last) := by
  unfold floatStep at hstep
  cases mode with
  | text =>
      cases pmode <;> try exact htracks.elim
      simp only [printStep] at hstep
      rw [precisionChar]
      by_cases hpercent : c = '%'
      · rw [if_pos hpercent] at hstep ⊢
        cases hstep
        exact ⟨(List.append_nil _).symm, htracks⟩
      · rw [if_neg hpercent] at hstep ⊢
        cases hemit : run.st.emit [c] 1 with
        | error stop =>
            rw [hemit] at hstep
            cases stop with
            | undefined => cases hstep
            | floating => exact absurd hemit (emit_ne_floating _ _)
        | ok st =>
            rw [hemit] at hstep
            cases hstep
            exact ⟨(List.append_nil _).symm, (padf_of_emit hemit).trans htracks⟩
  | conversion lRet padn =>
      cases pmode <;> try exact htracks.elim
      rw [← show run.st.padf = last from htracks]
      exact goOn_tracks hfloat hstep _
  | width lRet padn =>
      cases pmode <;> try exact htracks.elim
      simp only [printStep] at hstep
      rw [precisionChar]
      by_cases hdigit : isDigit c = true
      · rw [if_pos hdigit] at hstep ⊢
        cases hwidth : accumulate conf.intMax padn c with
        | none =>
            rw [hwidth] at hstep
            cases hstep
        | some padn =>
            rw [hwidth] at hstep
            cases hstep
            exact ⟨(List.append_nil _).symm, htracks⟩
      · rw [if_neg hdigit] at hstep ⊢
        rw [← show run.st.padf = last from htracks]
        exact goOn_tracks hfloat hstep _
  | decimals lRet padn =>
      cases pmode <;> try exact htracks.elim
      simp only [printStep] at hstep
      rw [precisionChar]
      by_cases hdigit : isDigit c = true
      · rw [if_pos hdigit] at hstep ⊢
        cases hpadf : accumulate conf.intMax run.st.padf c with
        | none =>
            rw [hpadf] at hstep
            cases hstep
        | some padf =>
            rw [hpadf] at hstep
            cases hstep
            refine ⟨(List.append_nil _).symm, ?_⟩
            rw [accumulate] at hpadf
            split_ifs at hpadf
            rw [← Option.some.inj hpadf, show run.st.padf = _ from htracks]
            rfl
      · rw [if_neg hdigit] at hstep ⊢
        have hpadf : run.st.padf = _ := htracks
        rw [← hpadf]
        exact goOn_tracks hfloat hstep _
  | failed =>
      cases pmode <;> try exact htracks.elim
      cases hstep
      exact ⟨(List.append_nil _).symm, trivial⟩

end Step

/-! ## A whole call -/

section Run

variable {dev : Device} {fmt : List Char} {mode mode' : PrintMode} {pmode : PrecisionMode}
  {run run' : FloatPrinting conf} {events : List PrecisionEvent} {last : ℕ}

theorem received_append (events events' : List PrecisionEvent) (last : ℕ) :
    received (events ++ events') last =
      received events last ++ received events' (inForce events last) := by
  induction events generalizing last with
  | nil => rfl
  | cons event events ih =>
      cases event with
      | written n => exact ih n
      | float own => exact congrArg (List.cons last) (ih last)

/-- From anywhere in a format, the calls receive what was written last. -/
theorem floatLoop_calls (hfloat : conf.useFloat = true)
    (hloop : floatLoop dev fmt mode run = .ok (mode', run'))
    (htracks : Tracks mode pmode run.st.padf last) :
    run'.calls.map FloatCall.padf =
      run.calls.map FloatCall.padf ++ received (precisionEvents fmt pmode) last := by
  induction fmt generalizing mode run pmode last with
  | nil =>
      cases hloop
      exact (List.append_nil _).symm
  | cons c fmt ih =>
      rw [floatLoop] at hloop
      cases hstep : floatStep dev c mode run with
      | error stop => simp [hstep, bind, Except.bind] at hloop
      | ok stepped =>
          simp only [hstep, bind, Except.bind] at hloop
          obtain ⟨hcalls, htracks'⟩ := floatStep_tracks hfloat hstep htracks
          rw [ih hloop htracks', hcalls, precisionEvents, received_append, List.append_assoc]

/-- The own precision of a conversion is the one that was written last. -/
def OwnLast (pmode : PrecisionMode) (last : ℕ) : Prop :=
  match pmode with
  | .modifiers own => ∀ n, own = some n → n = last
  | .width own => ∀ n, own = some n → n = last
  | _ => True

/-- The same of all conversions of a row of events. -/
def OwnWritten : List PrecisionEvent → ℕ → Prop
  | [], _ => True
  | .written n :: events, _ => OwnWritten events n
  | .float own :: events, last => (∀ n, own = some n → n = last) ∧ OwnWritten events last

theorem ownWritten_append {events events' : List PrecisionEvent} :
    OwnWritten (events ++ events') last ↔
      OwnWritten events last ∧ OwnWritten events' (inForce events last) := by
  induction events generalizing last with
  | nil => exact (true_and _).symm.to_iff
  | cons event events ih =>
      cases event with
      | written n => exact ih
      | float own => exact (and_congr_right fun _ => ih).trans and_assoc.symm

theorem ownLast_precisionModifier {own : Option ℕ} (hown : ∀ n, own = some n → n = last)
    (c : Char) :
    OwnWritten (precisionModifier own c).2 last ∧
      OwnLast (precisionModifier own c).1 (inForce (precisionModifier own c).2 last) := by
  unfold precisionModifier
  split
  all_goals first
    | exact ⟨trivial, trivial⟩
    | exact ⟨trivial, hown⟩
    | exact ⟨⟨hown, trivial⟩, trivial⟩

theorem ownLast_precisionChar (hown : OwnLast pmode last) (c : Char) :
    OwnWritten (precisionChar pmode c).2 last ∧
      OwnLast (precisionChar pmode c).1 (inForce (precisionChar pmode c).2 last) := by
  cases pmode with
  | text =>
      rw [precisionChar]
      split_ifs
      · exact ⟨trivial, nofun⟩
      · exact ⟨trivial, trivial⟩
  | modifiers own => exact ownLast_precisionModifier hown c
  | width own =>
      rw [precisionChar]
      split_ifs
      · exact ⟨trivial, hown⟩
      · exact ownLast_precisionModifier hown c
  | decimals n =>
      rw [precisionChar]
      split_ifs
      · exact ⟨trivial, trivial⟩
      · exact ownLast_precisionModifier (fun m hm => (Option.some.inj hm).symm) c
  | stopped => exact ⟨trivial, trivial⟩

theorem ownWritten_precisionEvents (hown : OwnLast pmode last) (fmt : List Char) :
    OwnWritten (precisionEvents fmt pmode) last := by
  induction fmt generalizing pmode last with
  | nil => trivial
  | cons c fmt ih =>
      obtain ⟨hwritten, hown'⟩ := ownLast_precisionChar hown c
      exact ownWritten_append.mpr ⟨hwritten, ih hown'⟩

/-- What holds before every conversion without a precision, one event at a time. -/
theorem forall_split_cons_iff {holds : List PrecisionEvent → Prop} (event : PrecisionEvent)
    (events : List PrecisionEvent) :
    (∀ before after, event :: events = before ++ .float none :: after → holds before) ↔
      (event = .float none → holds []) ∧
        ∀ before after, events = before ++ .float none :: after → holds (event :: before) := by
  constructor
  · intro hall
    refine ⟨fun hevent => hall [] events (by rw [hevent]; rfl), fun before after hsplit => ?_⟩
    exact hall (event :: before) after (by rw [hsplit]; rfl)
  · rintro ⟨hfirst, hrest⟩ before after hsplit
    cases before with
    | nil => exact hfirst (List.cons.inj hsplit).1
    | cons event' before =>
        obtain ⟨rfl, hbehind⟩ := List.cons.inj hsplit
        exact hrest before after hbehind

/-- What was written last is what was meant exactly if it is 5 for the conversions that have no
precision. -/
theorem received_eq_expected_iff (hwritten : OwnWritten events last) :
    received events last = expected events ↔
      ∀ before after, events = before ++ .float none :: after → inForce before last = 5 := by
  induction events generalizing last with
  | nil => exact iff_of_true rfl fun before after hsplit => by simp at hsplit
  | cons event events ih =>
      rw [forall_split_cons_iff]
      cases event with
      | written n =>
          rw [and_iff_right (fun hevent => nomatch hevent)]
          exact ih hwritten
      | float own =>
          obtain ⟨hown, hwritten⟩ := hwritten
          rw [received, expected, List.cons.injEq, ih hwritten]
          refine and_congr ?_ Iff.rfl
          cases own with
          | none => exact ⟨fun hlast _ => hlast, fun hlast => hlast rfl⟩
          | some n =>
              rw [hown n rfl]
              exact iff_of_true rfl nofun

/-- Every call of `fltprint` receives the precision of its own conversion, or 5. -/
def OwnPrecisions (fmt : List Char) (calls : List FloatCall) : Prop :=
  calls.map FloatCall.padf = expected (precisionEvents fmt .text)

/-- The calls receive the precisions of their own conversions exactly if each conversion that has
none comes when none was written yet, or 5 was written last. -/
theorem ownPrecisions_iff (hfloat : conf.useFloat = true) {args : List (Arg conf)}
    {later : List (ℚ × List (Arg conf))} {ret : ℤ} {emitted : List Char} {calls : List FloatCall}
    (hrun : vprintfFloat dev fmt args later = .ok (ret, emitted, calls)) :
    OwnPrecisions fmt calls ↔
      ∀ before after, precisionEvents fmt .text = before ++ .float none :: after →
        inForce before 5 = 5 := by
  have hown : OwnLast .text 5 := trivial
  have hwritten := ownWritten_precisionEvents hown fmt
  rw [← received_eq_expected_iff hwritten, OwnPrecisions]
  rw [vprintfFloat] at hrun
  cases hloop : floatLoop dev fmt .text ⟨⟨[], args, '\x00', 5, 0⟩, later, []⟩ with
  | error stop => simp [hloop, bind, Except.bind] at hrun
  | ok ended =>
      simp only [hloop, bind, Except.bind, pure, Except.pure, Except.ok.injEq,
        Prod.mk.injEq] at hrun
      have htracks : Tracks .text .text 5 5 := rfl
      rw [← hrun.2.2, floatLoop_calls hfloat hloop htracks]
      rfl

end Run

/-- Two calls, the first of which has no precision of its own. -/
theorem ownPrecisions_default_first :
    OwnPrecisions "%f %.2f".toList [⟨3 / 2, '\x00', 0, 5⟩, ⟨1 / 4, '\x00', 0, 2⟩] := by
  have hrun : @vprintfFloat (.avr true) (fun _ => 0) "%f %.2f".toList []
      [(3 / 2, []), (1 / 4, [])] =
        .ok (12, "1.50000 0.25".toList, [⟨3 / 2, '\x00', 0, 5⟩, ⟨1 / 4, '\x00', 0, 2⟩]) := by
    decide +kernel
  refine (ownPrecisions_iff rfl hrun).mpr ?_
  have hevents : precisionEvents "%f %.2f".toList .text =
      [.float none, .written 2, .float (some 2)] := by decide
  rw [hevents]
  intro before after hsplit
  rcases before with _ | ⟨event, _ | ⟨event', _ | ⟨event'', before⟩⟩⟩
  · rfl
  · simp at hsplit
  · simp at hsplit
  · simp at hsplit

/-- The precision of a conversion is left to the next. -/
theorem not_ownPrecisions :
    ∃ calls, @vprintfFloat (.avr true) (fun _ => 0) "%.2f %f".toList []
        [(1 / 4, []), (3 / 2, [])] = .ok (9, "0.25 1.50".toList, calls) ∧
      ¬ OwnPrecisions "%.2f %f".toList calls := by
  refine ⟨[⟨1 / 4, '\x00', 0, 2⟩, ⟨3 / 2, '\x00', 0, 2⟩], ?_, ?_⟩
  · decide +kernel
  · rw [OwnPrecisions]
    decide

end Cyancore.Libc
