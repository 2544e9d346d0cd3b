/-
# What a format says

A format is a row of literals and conversions.  What one of them prints depends on its own
characters and on its own argument: `Directive` is what the characters say, `Item` adds the
argument, and an item has a text and the count that goes with it.

The variables of `vprintf` outlive a conversion.  Only the pad character is not set anew for
the next, and it is zero wherever it is used.  The loop therefore emits the texts of the items
one after the other, as long as their counts add up to an `int`.
-/

import Cyancore.Libc.RoundTrip

namespace Cyancore.Libc

open Cyancore.Math

variable {conf : LibcConfig}

/-! ## Directives -/

/-- What a literal or a conversion says, with the length modifier and the width. -/
inductive Directive
  | literal (c : Char)
  | percent
  | signed (lRet padn : ℕ)
  | unsigned (lRet radix padn : ℕ)
  | char
  | str
  | ptr (padn : ℕ)
  deriving DecidableEq, Repr

/-- Where in a directive a scan is. -/
inductive FormatMode
  | text
  | /-- Behind the `%` and its modifiers so far. -/
    modifiers (lRet padn : ℕ)
  | width (lRet padn : ℕ)
  | /-- Behind an unsupported character. -/
    stopped
  deriving DecidableEq, Repr

/-- What a character adds. -/
inductive Scanned
  | more (mode : FormatMode)
  | directive (directive : Directive)
  deriving DecidableEq, Repr

/-- A character behind a `%` and its modifiers. -/
def scanModifier (conf : LibcConfig) (lRet padn : ℕ) (c : Char) : Scanned :=
  match c with
  | 'i' | 'd' => .directive (.signed lRet padn)
  | 'c' => .directive .char
  | 's' => .directive .str
  | 'p' => .directive (.ptr padn)
  | 'x' => .directive (.unsigned lRet 16 padn)
  | 'z' => .more (.modifiers (if conf.size = 64 then 2 else lRet) padn)
  | 'l' => .more (.modifiers (lRet + 1) padn)
  | 'u' => .directive (.unsigned lRet 10 padn)
  | '0' => .more (.width lRet 0)
  | '%' => .directive .percent
  | _ => .more .stopped

/-- One character, where a width may be any number. -/
def scanChar (conf : LibcConfig) (mode : FormatMode) (c : Char) : Scanned :=
  match mode with
  | .text => if c = '%' then .more (.modifiers 0 0) else .directive (.literal c)
  | .modifiers lRet padn => scanModifier conf lRet padn c
  | .width lRet padn =>
      if isDigit c then .more (.width lRet (padn * 10 + (c.toNat - '0'.toNat)))
      else scanModifier conf lRet padn c
  | .stopped => .more .stopped

/-- Where a format ends, and its directives. -/
def scanFormat (conf : LibcConfig) : List Char → FormatMode → FormatMode × List Directive
  | [], mode => (mode, [])
  | c :: fmt, mode =>
      match scanChar conf mode c with
      | .more mode => scanFormat conf fmt mode
      | .directive directive =>
          let (mode, directives) := scanFormat conf fmt .text
          (mode, directive :: directives)

/-- The format consists of literals and whole conversions. -/
def Complete (conf : LibcConfig) (fmt : List Char) : Prop := (scanFormat conf fmt .text).1 = .text

/-- The width so far is a number of an `int`. -/
def FormatMode.fits (conf : LibcConfig) : FormatMode → Bool
  | .width _ padn => padn ≤ conf.intMax
  | _ => true

/-- All widths of a format are numbers of an `int`. -/
def widthsFit (conf : LibcConfig) : List Char → FormatMode → Bool
  | [], _ => true
  | c :: fmt, mode =>
      match scanChar conf mode c with
      | .more mode => mode.fits conf && widthsFit conf fmt mode
      | .directive _ => widthsFit conf fmt .text

/-! ## Items -/

/-- A directive with its argument, as it is converted. -/
inductive Item (conf : LibcConfig)
  | literal (c : Char)
  | percent
  | signed (num : BitVec conf.long) (padn : ℕ)
  | unsigned (unum : BitVec conf.long) (radix padn : ℕ)
  | char (c : Char)
  | str (value : List Char)
  | ptr (value : BitVec conf.long) (padn : ℕ)
  deriving DecidableEq, Repr

/-- Digits in a field that zeros fill. -/
def zeroPad (padn : ℕ) (digits : List Char) : List Char :=
  List.replicate (padn - digits.length) '0' ++ digits

namespace Item

/-- The zeros and digits of a number with its sign, which takes one place. -/
def body (num : BitVec conf.long) (padn : ℕ) : List Char :=
  zeroPad (if num.toInt < 0 then padn - 1 else padn) (Nat.toDigits 10 (magnitude num))

def text : Item conf → List Char
  | .literal c => [c]
  | .percent => ['%']
  | .signed num padn => (if num.toInt < 0 then ['-'] else []) ++ body num padn
  | .unsigned unum radix padn => zeroPad padn (Nat.toDigits radix unum.toNat)
  | .char c => [c]
  | .str value => value
  | .ptr value padn => ['0', 'x'] ++ zeroPad (padn - 2) (Nat.toDigits 16 value.toNat)

/-- What the item adds to the value that is returned. -/
def count (dev : Device) : Item conf → ℤ
  | .percent => dev '%'
  | .char c => dev c
  | .signed num padn => (body num padn).length
  | item => item.text.length

/-- The item negates the least `long`. -/
def NegatesLeast : Item conf → Prop
  | .signed num _ => num = BitVec.intMin conf.long
  | _ => False

instance (item : Item conf) : Decidable item.NegatesLeast :=
  match item with
  | .signed num _ => inferInstanceAs (Decidable (num = BitVec.intMin conf.long))
  | .literal _ | .percent | .unsigned _ _ _ | .char _ | .str _ | .ptr _ _ =>
      inferInstanceAs (Decidable False)

end Item

/-- Take the argument of a directive, if there is one of its type. -/
def Directive.item (directive : Directive) (args : List (Arg conf)) :
    Option (Item conf × List (Arg conf)) :=
  match directive, args with
  | .literal c, args => some (.literal c, args)
  | .percent, args => some (.percent, args)
  | .signed lRet padn, args =>
      match getNumVaArgs lRet args with
      | .ok (num, args) => some (.signed num padn, args)
      | .error _ => none
  | .unsigned lRet radix padn, args =>
      match getUnumVaArgs lRet args with
      | .ok (unum, args) => some (.unsigned unum radix padn, args)
      | .error _ => none
  | .char, .int value :: args => some (.char (Char.ofNat (value.toNat % 256)), args)
  | .char, .ptr value :: args => some (.char (Char.ofNat (value.toNat % 256)), args)
  | .str, .str value :: args => some (.str value, args)
  | .ptr padn, .ptr value :: args => some (.ptr (value.setWidth conf.long) padn, args)
  | _, _ => none

/-- A signed conversion takes the argument that its modifiers name. -/
theorem item_signed_iff {lRet padn : ℕ} {item : Item conf} {args rest : List (Arg conf)} :
    (Directive.signed lRet padn).item args = some (item, rest) ↔
      ∃ num, getNumVaArgs lRet args = .ok (num, rest) ∧ item = .signed num padn := by
  have htaken : (Directive.signed lRet padn).item args =
      match getNumVaArgs lRet args with
      | .ok (num, args) => some (.signed num padn, args)
      | .error _ => none := rfl
  rw [htaken]
  constructor
  · intro hitem
    split at hitem
    · rename_i num args' hnum
      cases hitem
      exact ⟨num, hnum, rfl⟩
    · cases hitem
  · rintro ⟨num, hnum, rfl⟩
    rw [hnum]

/-- So does an unsigned one. -/
theorem item_unsigned_iff {lRet radix padn : ℕ} {item : Item conf} {args rest : List (Arg conf)} :
    (Directive.unsigned lRet radix padn).item args = some (item, rest) ↔
      ∃ unum, getUnumVaArgs lRet args = .ok (unum, rest) ∧ item = .unsigned unum radix padn := by
  have htaken : (Directive.unsigned lRet radix padn).item args =
      match getUnumVaArgs lRet args with
      | .ok (unum, args) => some (.unsigned unum radix padn, args)
      | .error _ => none := rfl
  rw [htaken]
  constructor
  · intro hitem
    split at hitem
    · rename_i unum args' hunum
      cases hitem
      exact ⟨unum, hunum, rfl⟩
    · cases hitem
  · rintro ⟨unum, hunum, rfl⟩
    rw [hunum]

/-- The items of directives whose arguments match, and the arguments that are left. -/
def itemsOf : List Directive → List (Arg conf) → Option (List (Item conf) × List (Arg conf))
  | [], args => some ([], args)
  | directive :: directives, args =>
      match directive.item args with
      | none => none
      | some (item, args) =>
          (itemsOf directives args).map fun (items, args) => (item :: items, args)

theorem itemsOf_cons (directive : Directive) (directives : List Directive)
    (args : List (Arg conf)) :
    itemsOf (directive :: directives) args =
      (directive.item args).bind fun taken =>
        (itemsOf directives taken.2).map fun all => (taken.1 :: all.1, all.2) := by
  rw [itemsOf]
  cases directive.item args <;> rfl

/-- The first directive takes its arguments, and the others theirs of those that are left. -/
theorem exists_of_itemsOf_cons {directive : Directive} {directives : List Directive}
    {args rest : List (Arg conf)} {items : List (Item conf)}
    (hitems : itemsOf (directive :: directives) args = some (items, rest)) :
    ∃ item middle items', directive.item args = some (item, middle) ∧
      itemsOf directives middle = some (items', rest) ∧ items = item :: items' := by
  rw [itemsOf_cons, Option.bind_eq_some_iff] at hitems
  obtain ⟨⟨item, middle⟩, hitem, hitems⟩ := hitems
  obtain ⟨⟨items', rest'⟩, hitems', hall⟩ := Option.map_eq_some_iff.mp hitems
  cases hall
  exact ⟨item, middle, items', hitem, hitems', rfl⟩

/-! ## The counts -/

/-- The value is one of an `int`. -/
def FitsInt (conf : LibcConfig) (value : ℤ) : Prop :=
  value ≤ conf.intMax ∧ -conf.intMax - 1 ≤ value

instance (value : ℤ) : Decidable (FitsInt conf value) := inferInstanceAs (Decidable (_ ∧ _))

theorem fitsInt_zero : FitsInt conf 0 := by
  constructor <;> omega

/-- Add up the counts of items; `none` if they leave `int`, or a number has no negation. -/
def tally (dev : Device) : List (Item conf) → ℤ → Option ℤ
  | [], ret => some ret
  | item :: items, ret =>
      if item.NegatesLeast ∨ ¬ FitsInt conf (ret + item.count dev) then none
      else tally dev items (ret + item.count dev)

/-! ## One item -/

/-- The state with characters emitted and counted. -/
def Printing.put (chars : List Char) (count : ℤ) (st : Printing conf) : Printing conf :=
  { st with emitted := st.emitted ++ chars, ret := st.ret + count }

/-- What a step that emits comes to. -/
def emitted (chars : List Char) (count : ℤ) (st : Printing conf) :
    Except PrintStop (PrintMode × Printing conf) :=
  if FitsInt conf (st.ret + count) then .ok (.text, st.put chars count) else .error .undefined

section Emit

variable {dev : Device} {st : Printing conf} {padn : ℤ} {item : Item conf}
  {args : List (Arg conf)}

theorem long_lt (word : BitVec conf.long) : word.toNat < 2 ^ 64 :=
  Nat.lt_of_lt_of_le word.isLt (Nat.pow_le_pow_right Nat.two_pos conf.long_le)

theorem emit_eq_ite (chars : List Char) (count : ℤ) :
    st.emit chars count =
      if FitsInt conf (st.ret + count) then .ok (st.put chars count) else .error .undefined := rfl

/-- Emitting and going back to the text. -/
theorem emit_text (chars : List Char) (count : ℤ) :
    (st.emit chars count >>= fun st => pure (PrintMode.text, st)) = emitted chars count st := by
  rw [emit_eq_ite, emitted]
  split_ifs <;> rfl

/-- Where the pad character is zero, a number is printed in its field. -/
theorem unumprint_zeroPad {radix unum : ℕ} (hone : 1 < radix) (hsixteen : radix ≤ 16)
    (hunum : unum < radix ^ 20) {padc : Char} (hpad : 0 < padn → padc = '0') :
    unumprint unum radix padc padn = .ok (zeroPad padn.toNat (Nat.toDigits radix unum)) := by
  rw [unumprint_of_lt hone hsixteen hunum, zeroPad]
  by_cases hpos : 0 < padn
  · have hroom : (padn - (Nat.toDigits radix unum).length).toNat =
        padn.toNat - (Nat.toDigits radix unum).length := by omega
    rw [hpad hpos, hroom]
  · have hroom : (padn - (Nat.toDigits radix unum).length).toNat = 0 := by omega
    have hroom' : padn.toNat - (Nat.toDigits radix unum).length = 0 := by omega
    rw [hroom, hroom', List.replicate_zero, List.replicate_zero]

theorem emitUnum_zeroPad {radix unum : ℕ} (hone : 1 < radix) (hsixteen : radix ≤ 16)
    (hunum : unum < radix ^ 20) (hpad : 0 < padn → st.padc = '0') :
    st.emitUnum unum radix padn =
      emitted (zeroPad padn.toNat (Nat.toDigits radix unum))
        (zeroPad padn.toNat (Nat.toDigits radix unum)).length st := by
  rw [Printing.emitUnum, unumprint_zeroPad hone hsixteen hunum hpad]
  exact emit_text _ _

theorem emitUnum_ten (word : BitVec conf.long) (hpad : 0 < padn → st.padc = '0') :
    st.emitUnum word.toNat 10 padn =
      emitted (zeroPad padn.toNat (Nat.toDigits 10 word.toNat))
        (zeroPad padn.toNat (Nat.toDigits 10 word.toNat)).length st :=
  emitUnum_zeroPad (by decide) (by decide) (Nat.lt_trans (long_lt word) (by decide)) hpad

theorem emitUnum_sixteen (word : BitVec conf.long) (hpad : 0 < padn → st.padc = '0') :
    st.emitUnum word.toNat 16 padn =
      emitted (zeroPad padn.toNat (Nat.toDigits 16 word.toNat))
        (zeroPad padn.toNat (Nat.toDigits 16 word.toNat)).length st :=
  emitUnum_zeroPad (by decide) (by decide) (Nat.lt_trans (long_lt word) (by decide)) hpad

/-- What is emitted in two parts. -/
theorem emitted_put (chars chars' : List Char) (count count' : ℤ) :
    emitted chars' count' (st.put chars count) = emitted (chars ++ chars') (count + count') st := by
  simp only [emitted, Printing.put, Int.add_assoc, List.append_assoc]

/-- The least `long` is negative. -/
theorem toInt_neg_of_intMin {num : BitVec conf.long} (hmin : num = BitVec.intMin conf.long) :
    num.toInt < 0 := by
  have hpos : (0 : ℤ) < 2 ^ (conf.long - 1) := by positivity
  rw [hmin, BitVec.toInt_intMin_of_pos conf.long_pos]
  omega

/-- `d` and `i`. -/
theorem emitNum_item (dev : Device) {lRet padn : ℕ} (hret : FitsInt conf st.ret)
    (hpad : 0 < padn → st.padc = '0') {num : BitVec conf.long}
    (hnum : getNumVaArgs lRet st.args = .ok (num, args)) :
    st.emitNum lRet padn =
      if num = BitVec.intMin conf.long then .error .undefined
      else emitted (Item.text (.signed num padn)) (Item.count dev (.signed num padn))
        (st.withArgs args) := by
  rw [Printing.emitNum, hnum]
  simp only [bind, Except.bind]
  by_cases hneg : num.toInt < 0
  · by_cases hmin : num = BitVec.intMin conf.long
    · simp only [if_pos hneg, if_pos hmin]
      rfl
    · have hfield : ((padn : ℤ) - 1).toNat = padn - 1 := by omega
      have hsign : FitsInt conf ((st.withArgs args).ret + 0) := by
        rw [Int.add_zero]
        exact hret
      simp only [if_pos hneg, if_neg hmin, emit_eq_ite, if_pos hsign]
      have hpad' : 0 < (padn : ℤ) - 1 → ((st.withArgs args).put ['-'] 0).padc = '0' :=
        fun hpos => hpad (by omega)
      rw [emitUnum_ten (-num) hpad', emitted_put, hfield, Int.zero_add]
      simp only [Item.text, Item.count, Item.body, magnitude, if_pos hneg]
  · have hmin : num ≠ BitVec.intMin conf.long := fun hmin => hneg (toInt_neg_of_intMin hmin)
    simp only [if_neg hneg, if_neg hmin]
    have hpad' : 0 < (padn : ℤ) → (st.withArgs args).padc = '0' := fun hpos => hpad (by omega)
    rw [emitUnum_ten num hpad', Int.toNat_natCast]
    simp only [Item.text, Item.count, Item.body, magnitude, if_neg hneg, List.nil_append]

/-- `p`. -/
theorem emitPtr_item (dev : Device) {padn : ℕ} (hret : FitsInt conf st.ret)
    (hpad : 0 < padn → st.padc = '0') (value : BitVec conf.long) :
    (st.emit ['0', 'x'] 2 >>= fun st => st.emitUnum value.toNat 16 (padn - 2)) =
      emitted (Item.text (.ptr value padn)) (Item.count dev (.ptr value padn)) st := by
  have hfield : ((padn : ℤ) - 2).toNat = padn - 2 := by omega
  have hcount : Item.count dev (.ptr value padn) =
      2 + (zeroPad (padn - 2) (Nat.toDigits 16 value.toNat)).length := by
    simp only [Item.count, Item.text, List.length_append, Int.natCast_add]
    rfl
  rw [hcount, emit_eq_ite]
  by_cases hfits : FitsInt conf (st.ret + 2)
  · rw [if_pos hfits]
    simp only [bind, Except.bind]
    have hpad' : 0 < (padn : ℤ) - 2 → (st.put ['0', 'x'] 2).padc = '0' :=
      fun hpos => hpad (by omega)
    rw [emitUnum_sixteen value hpad', emitted_put, hfield]
    rfl
  · rw [if_neg hfits, emitted, if_neg]
    · rfl
    · intro hall
      obtain ⟨hhigh, hlow⟩ := hall
      obtain ⟨-, hlow'⟩ := hret
      exact hfits ⟨by omega, by omega⟩

/-- `x` and `u`. -/
theorem emitUnum_item (dev : Device) {lRet radix padn : ℕ} {directive : Directive}
    (hdirective : directive = .unsigned lRet radix padn) (hone : 1 < radix)
    (hsixteen : radix ≤ 16) (hlong : 2 ^ 64 ≤ radix ^ 20)
    (hitem : directive.item st.args = some (item, args)) (hpad : 0 < padn → st.padc = '0') :
    (getUnumVaArgs lRet st.args >>= fun taken =>
        (st.withArgs taken.2).emitUnum taken.1.toNat radix padn) =
      if item.NegatesLeast then .error .undefined
      else emitted item.text (item.count dev) (st.withArgs args) := by
  subst hdirective
  have hpad' : 0 < (padn : ℤ) → (st.withArgs args).padc = '0' :=
    fun hpos => hpad (Int.natCast_pos.mp hpos)
  obtain ⟨unum, hunum, rfl⟩ := item_unsigned_iff.mp hitem
  have hfits := Nat.lt_of_lt_of_le (long_lt unum) hlong
  rw [hunum]
  simp only [bind, Except.bind]
  rw [emitUnum_zeroPad hone hsixteen hfits hpad', Int.toNat_natCast]
  rfl

/-- A conversion whose argument matches emits its item. -/
theorem convert_directive {lRet padn : ℕ} {c : Char} {directive : Directive}
    (hscan : scanModifier conf lRet padn c = .directive directive)
    (hitem : directive.item st.args = some (item, args)) (hret : FitsInt conf st.ret)
    (hpad : 0 < padn → st.padc = '0') :
    convert dev lRet padn c st =
      if item.NegatesLeast then .error .undefined
      else emitted item.text (item.count dev) (st.withArgs args) := by
  unfold scanModifier at hscan
  split at hscan <;> cases hscan
  -- the cases are in the order of the `switch`, less the modifiers
  case _ | _ =>
    obtain ⟨num, hnum, rfl⟩ := item_signed_iff.mp hitem
    exact emitNum_item dev hret hpad hnum
  case _ =>
    rw [convert]
    cases hargs : st.args with
    | nil =>
        rw [hargs] at hitem
        cases hitem
    | cons arg rest =>
        rw [hargs] at hitem
        cases arg <;> cases hitem
        all_goals exact emit_text _ _
  case _ =>
    rw [convert]
    cases hargs : st.args with
    | nil =>
        rw [hargs] at hitem
        cases hitem
    | cons arg rest =>
        rw [hargs] at hitem
        cases arg <;> cases hitem
        exact emit_text _ _
  case _ =>
    rw [convert]
    cases hargs : st.args with
    | nil =>
        rw [hargs] at hitem
        cases hitem
    | cons arg rest =>
        rw [hargs] at hitem
        cases arg <;> cases hitem
        exact @emitPtr_item _ (st.withArgs args) dev _ hret hpad _
  case _ => exact emitUnum_item dev rfl (by decide) (by decide) (by decide) hitem hpad
  case _ => exact emitUnum_item dev rfl (by decide) (by decide) (by decide) hitem hpad
  case _ =>
    cases hitem
    exact emit_text _ _

/-! ## The loop -/

/-- Where in its format a call is, as the scan tells. -/
def FormatMode.printMode : FormatMode → PrintMode
  | .text => .text
  | .modifiers lRet padn => .conversion lRet padn
  | .width lRet padn => .width lRet padn
  | .stopped => .failed

/-- Wherever a width has been read, the pad character is zero. -/
def Padded (mode : FormatMode) (padc : Char) : Prop :=
  match mode with
  | .modifiers _ padn => 0 < padn → padc = '0'
  | .width _ _ => padc = '0'
  | _ => True

/-- Without floating point, all other characters are modifiers or unsupported. -/
theorem convert_more (hfloat : conf.useFloat = false) {lRet padn : ℕ} {c : Char} {mode : FormatMode}
    (hscan : scanModifier conf lRet padn c = .more mode) (hpad : 0 < padn → st.padc = '0') :
    ∃ padc, convert dev lRet padn c st = .ok (mode.printMode, { st with padc := padc }) ∧
      Padded mode padc := by
  unfold scanModifier at hscan
  split at hscan <;> cases hscan
  case _ =>
    refine ⟨st.padc, ?_, hpad⟩
    rfl
  case _ => exact ⟨st.padc, rfl, hpad⟩
  case _ => exact ⟨'0', rfl, rfl⟩
  case _ =>
    refine ⟨st.padc, ?_, trivial⟩
    unfold convert
    split <;> first | contradiction | simp_all [FormatMode.printMode]

/-- A character that adds no directive changes the pad character at most, unless it adds to a
width more than fits. -/
theorem printStep_more (hfloat : conf.useFloat = false) {mode mode' : FormatMode} {c : Char}
    (hscan : scanChar conf mode c = .more mode') (hpad : Padded mode st.padc)
    (hwidth : mode'.fits conf = true) :
    ∃ padc, printStep dev c mode.printMode st = .ok (mode'.printMode, { st with padc := padc }) ∧
      Padded mode' padc := by
  cases mode with
  | text =>
      simp only [scanChar] at hscan
      split_ifs at hscan with hpercent
      cases hscan
      refine ⟨st.padc, ?_, fun hpos => absurd hpos (Nat.lt_irrefl 0)⟩
      simp only [FormatMode.printMode, printStep, if_pos hpercent]
      rfl
  | modifiers lRet padn => exact convert_more hfloat hscan hpad
  | width lRet padn =>
      simp only [scanChar] at hscan
      simp only [FormatMode.printMode, printStep]
      split_ifs at hscan with hdigit
      · cases hscan
        rw [if_pos hdigit, accumulate, if_pos (of_decide_eq_true hwidth)]
        exact ⟨st.padc, rfl, hpad⟩
      · rw [if_neg hdigit]
        exact convert_more hfloat hscan fun _ => hpad
  | stopped =>
      cases hscan
      exact ⟨st.padc, rfl, trivial⟩

/-- A modifier starts with no width or with the one before it. -/
theorem fits_of_scanModifier {lRet padn : ℕ} {c : Char} {mode : FormatMode}
    (hscan : scanModifier conf lRet padn c = .more mode) : mode.fits conf = true := by
  unfold scanModifier at hscan
  split at hscan <;> cases hscan
  case _ => rfl
  case _ => rfl
  case _ => exact decide_eq_true (Nat.zero_le conf.intMax)
  case _ => rfl

/-- A digit that makes a width too large ends the run. -/
theorem printStep_wide {mode mode' : FormatMode} {c : Char}
    (hscan : scanChar conf mode c = .more mode') (hwide : mode'.fits conf = false) :
    printStep dev c mode.printMode st = .error .undefined := by
  cases mode with
  | text =>
      simp only [scanChar] at hscan
      split_ifs at hscan
      cases hscan
      cases hwide
  | modifiers lRet padn =>
      rw [fits_of_scanModifier hscan] at hwide
      cases hwide
  | width lRet padn =>
      simp only [scanChar] at hscan
      simp only [FormatMode.printMode, printStep]
      split_ifs at hscan with hdigit
      · cases hscan
        rw [if_pos hdigit, accumulate, if_neg (of_decide_eq_false hwide)]
      · rw [fits_of_scanModifier hscan] at hwide
        cases hwide
  | stopped =>
      cases hscan
      cases hwide

/-- A character that completes a directive emits its item. -/
theorem printStep_directive {mode : FormatMode} {c : Char} {directive : Directive}
    (hscan : scanChar conf mode c = .directive directive)
    (hitem : directive.item st.args = some (item, args)) (hret : FitsInt conf st.ret)
    (hpad : Padded mode st.padc) :
    printStep dev c mode.printMode st =
      if item.NegatesLeast then .error .undefined
      else emitted item.text (item.count dev) (st.withArgs args) := by
  cases mode with
  | text =>
      simp only [scanChar] at hscan
      split_ifs at hscan with hpercent
      cases hscan
      cases hitem
      simp only [FormatMode.printMode, printStep, if_neg hpercent]
      exact emit_text _ _
  | modifiers lRet padn => exact convert_directive hscan hitem hret hpad
  | width lRet padn =>
      simp only [scanChar] at hscan
      simp only [FormatMode.printMode, printStep]
      split_ifs at hscan with hdigit
      rw [if_neg hdigit]
      exact convert_directive hscan hitem hret fun _ => hpad
  | stopped => cases hscan

/-- From anywhere in a format, the loop emits the items to come one after the other, unless a
width is too large, their counts leave `int` or a number has no negation. -/
theorem printLoop_items (hfloat : conf.useFloat = false) {fmt : List Char} {mode : FormatMode}
    {items : List (Item conf)}
    (hitems : itemsOf (scanFormat conf fmt mode).2 st.args = some (items, args))
    (hret : FitsInt conf st.ret) (hpad : Padded mode st.padc) :
    match if widthsFit conf fmt mode then tally dev items st.ret else none with
    | none => printLoop dev fmt mode.printMode st = .error .undefined
    | some ret => ∃ st' : Printing conf,
        printLoop dev fmt mode.printMode st = .ok ((scanFormat conf fmt mode).1.printMode, st') ∧
          st'.emitted = st.emitted ++ items.flatMap Item.text ∧ st'.args = args ∧
            st'.ret = ret := by
  induction fmt generalizing mode items st with
  | nil =>
      cases hitems
      exact ⟨st, rfl, (List.append_nil _).symm, rfl, rfl⟩
  | cons c fmt ih =>
      rw [scanFormat, widthsFit, printLoop]
      rw [scanFormat] at hitems
      cases hchar : scanChar conf mode c with
      | more middle =>
          simp only [hchar] at hitems ⊢
          by_cases hwidth : middle.fits conf = true
          · obtain ⟨padc, hstep, hpad'⟩ := printStep_more hfloat hchar hpad hwidth
            have hrest := @ih { st with padc := padc } middle items hitems hret hpad'
            rw [hstep]
            simp only [hwidth, Bool.true_and]
            exact hrest
          · rw [Bool.not_eq_true] at hwidth
            rw [printStep_wide hchar hwidth]
            simp only [hwidth, Bool.false_and]
            rfl
      | directive directive =>
          simp only [hchar] at hitems ⊢
          obtain ⟨item, args', items', hitem, hitems', rfl⟩ := exists_of_itemsOf_cons hitems
          have hrun := @ih ((st.withArgs args').put item.text (item.count dev)) .text _ hitems'
          rw [printStep_directive hchar hitem hret hpad, tally]
          by_cases hleast : item.NegatesLeast
          · simp only [hleast, true_or, if_true, ite_self]
            rfl
          rw [if_neg hleast, emitted]
          by_cases hfits : FitsInt conf (st.ret + item.count dev)
          · rw [if_pos (show FitsInt conf ((st.withArgs args').ret + item.count dev) from hfits)]
            simp only [hleast, hfits, not_true, or_self, if_false, List.flatMap_cons,
              ← List.append_assoc]
            exact hrun hfits trivial
          · rw [if_neg (show ¬ FitsInt conf ((st.withArgs args').ret + item.count dev) from
              hfits)]
            simp only [hfits, not_false_eq_true, or_true, if_true, ite_self]
            rfl

end Emit

/-! ## The whole call -/

section Call

variable {dev : Device} {fmt : List Char} {mode : FormatMode} {args rest : List (Arg conf)}
  {items : List (Item conf)}

/-- What items add up to. -/
def counts (dev : Device) (items : List (Item conf)) : ℤ := (items.map (Item.count dev)).sum

@[simp]
theorem counts_nil : counts dev ([] : List (Item conf)) = 0 := rfl

@[simp]
theorem counts_cons (item : Item conf) (items : List (Item conf)) :
    counts dev (item :: items) = item.count dev + counts dev items := List.sum_cons

/-- The counts of items add up exactly if they do up to each of them. -/
theorem tally_eq_some_iff {ret total : ℤ} (hret : FitsInt conf ret) :
    tally dev items ret = some total ↔ ret + counts dev items = total ∧
      (∀ item ∈ items, ¬ item.NegatesLeast) ∧
      ∀ front, front <+: items → FitsInt conf (ret + counts dev front) := by
  induction items generalizing ret with
  | nil =>
      rw [tally, counts_nil, Int.add_zero, Option.some_inj]
      refine ⟨fun htotal => ⟨htotal, List.forall_mem_nil _, fun front hfront => ?_⟩, And.left⟩
      rw [List.prefix_nil.mp hfront, counts_nil, Int.add_zero]
      exact hret
  | cons item items ih =>
      rw [tally, counts_cons, List.forall_mem_cons, ← Int.add_assoc]
      by_cases hleast : item.NegatesLeast
      · rw [if_pos (.inl hleast)]
        exact iff_of_false nofun fun hall => hall.2.1.1 hleast
      by_cases hfits : FitsInt conf (ret + item.count dev)
      · rw [if_neg (not_or.mpr ⟨hleast, not_not.mpr hfits⟩), ih hfits]
        refine and_congr_right fun _ => and_congr (and_iff_right hleast).symm ?_
        constructor
        · intro hfronts front hfront
          rcases List.prefix_cons_iff.mp hfront with rfl | ⟨front, rfl, hshorter⟩
          · rw [counts_nil, Int.add_zero]
            exact hret
          · rw [counts_cons, ← Int.add_assoc]
            exact hfronts front hshorter
        · intro hfronts front hfront
          have hthis := hfronts (item :: front) (List.prefix_cons_iff.mpr (.inr ⟨_, rfl, hfront⟩))
          rwa [counts_cons, ← Int.add_assoc] at hthis
      · rw [if_pos (.inr hfits)]
        refine iff_of_false nofun fun hall => hfits ?_
        have hthis := hall.2.2 [item] (List.prefix_cons_iff.mpr (.inr ⟨[], rfl, List.nil_prefix⟩))
        rwa [counts_cons, counts_nil, Int.add_zero] at hthis

theorem FormatMode.printMode_eq_text : mode.printMode = .text ↔ mode = .text := by
  cases mode <;> simp [printMode]

/-- `vprintf` emits the items of its format, if its widths fit and their counts add up. -/
theorem vprintf_items (hfloat : conf.useFloat = false)
    (hitems : itemsOf (scanFormat conf fmt .text).2 args = some (items, rest)) :
    vprintf dev fmt args =
      match if widthsFit conf fmt .text then tally dev items 0 else none with
      | none => .error .undefined
      | some ret =>
          .ok (if (scanFormat conf fmt .text).1 = .text then ret else -1,
            items.flatMap Item.text) := by
  have hloop := @printLoop_items conf dev ⟨[], args, '\x00', 5, 0⟩ rest hfloat fmt .text items
    hitems fitsInt_zero trivial
  rw [vprintf]
  split at hloop
  case _ htally =>
    change printLoop dev fmt .text _ = _ at hloop
    rw [htally, hloop]
    rfl
  case _ ret htally =>
    obtain ⟨st', hrun, hemitted, -, hret⟩ := hloop
    change printLoop dev fmt .text _ = _ at hrun
    rw [htally, hrun]
    simp only [bind, Except.bind, pure, Except.pure, FormatMode.printMode_eq_text, hemitted, hret,
      List.nil_append]

end Call

/-! ## The value that is returned -/

section Counted

variable {fmt : List Char} {args rest : List (Arg conf)} {items : List (Item conf)}

/-- The count of an item is that of its characters: it is not one that is written by a call whose
status is added in its place, and has no sign. -/
def Item.Counted : Item conf → Prop
  | .percent => False
  | .char _ => False
  | .signed num _ => 0 ≤ num.toInt
  | _ => True

instance (item : Item conf) : Decidable item.Counted :=
  match item with
  | .percent | .char _ => inferInstanceAs (Decidable False)
  | .signed num _ => inferInstanceAs (Decidable (0 ≤ num.toInt))
  | .literal _ | .unsigned _ _ _ | .str _ | .ptr _ _ => inferInstanceAs (Decidable True)

/-- `vprintf` returns the number of the characters that it emits, on a device that takes them
all. -/
def CountsText (fmt : List Char) (args : List (Arg conf)) : Prop :=
  ∃ ret emitted, vprintf (fun _ => 0) fmt args = .ok (ret, emitted) ∧ ret = emitted.length

theorem Item.count_le (item : Item conf) :
    item.count (fun _ => 0) ≤ item.text.length ∧
      (item.count (fun _ => 0) = item.text.length ↔ item.Counted) := by
  cases item with
  | percent => simp [count, text, Counted]
  | char c => simp [count, text, Counted]
  | signed num padn =>
      by_cases hneg : num.toInt < 0
      · simp [count, text, Counted, hneg]
      · simp [count, text, Counted, hneg]
        omega
  | literal c => simp [count, Counted]
  | unsigned unum radix padn => simp [count, Counted]
  | str value => simp [count, Counted]
  | ptr value padn => simp [count, Counted]

theorem counts_le (items : List (Item conf)) :
    counts (fun _ => 0) items ≤ (items.flatMap Item.text).length ∧
      (counts (fun _ => 0) items = (items.flatMap Item.text).length ↔
        ∀ item ∈ items, item.Counted) := by
  induction items with
  | nil => simp
  | cons item items ih =>
      obtain ⟨hle, heq⟩ := item.count_le
      obtain ⟨hle', heq'⟩ := ih
      rw [counts_cons, List.flatMap_cons, List.length_append, Int.natCast_add,
        List.forall_mem_cons, ← heq, ← heq']
      exact ⟨by omega, by omega⟩

theorem Item.Counted.not_negatesLeast {item : Item conf} (hcounted : item.Counted) :
    ¬ item.NegatesLeast := by
  cases item with
  | signed num padn =>
      exact fun hmin => absurd hcounted (Int.not_le.mpr (toInt_neg_of_intMin hmin))
  | _ => exact id

/-- The value is the number of characters exactly if all widths fit an `int`, there is no `%c`, no
`%%` and no negative number, and the number of characters is an `int`. -/
theorem countsText_iff (hfloat : conf.useFloat = false) (hcomplete : Complete conf fmt)
    (hitems : itemsOf (scanFormat conf fmt .text).2 args = some (items, rest)) :
    CountsText fmt args ↔
      widthsFit conf fmt .text = true ∧ (∀ item ∈ items, item.Counted) ∧
        (items.flatMap Item.text).length ≤ conf.intMax := by
  obtain ⟨hle, heq⟩ := counts_le items
  have htext : (scanFormat conf fmt .text).1 = .text := hcomplete
  rw [CountsText, vprintf_items hfloat hitems, ← heq]
  simp only [if_pos htext]
  constructor
  · rintro ⟨ret, emitted, hrun, hret⟩
    split at hrun
    · cases hrun
    · rename_i total htally
      split_ifs at htally with hwidths
      obtain ⟨htotal, -, hfronts⟩ := (tally_eq_some_iff fitsInt_zero).mp htally
      cases hrun
      have hall := (hfronts items List.prefix_rfl).1
      exact ⟨hwidths, by omega, by omega⟩
  · rintro ⟨hwidths, hcounts, hfits⟩
    have hcounted := heq.mp hcounts
    have htally : tally (fun _ => 0) items 0 = some (0 + counts (fun _ => 0) items) := by
      refine (tally_eq_some_iff fitsInt_zero).mpr ⟨rfl, ?_, ?_⟩
      · exact fun item hitem => (hcounted item hitem).not_negatesLeast
      · rintro front ⟨back, rfl⟩
        have hfront := (counts_le front).2.mpr
          fun item hitem => hcounted item (List.mem_append_left _ hitem)
        rw [List.flatMap_append, List.length_append] at hfits
        constructor <;> omega
    rw [if_pos hwidths, htally]
    exact ⟨_, _, rfl, by rw [Int.zero_add, hcounts]⟩

end Counted

/-- Fields of zeros, text, a string and hexadecimal digits. -/
theorem countsText_fields :
    @CountsText (.avr false) "%05d: %s=0x%lx\n".toList
      [.int 42, .str "id".toList, .long 0xbeef] := by
  have hcomplete : Complete (.avr false) "%05d: %s=0x%lx\n".toList := rfl
  exact (countsText_iff rfl hcomplete rfl).mpr ⟨by decide, by decide, by decide⟩

/-- Of a negative number the sign is not counted. -/
theorem not_countsText : ¬ @CountsText (.avr false) "%d".toList [.int (-1)] := by
  rintro ⟨ret, emitted, hrun, hret⟩
  have hprinted : @vprintf (.avr false) (fun _ => 0) "%d".toList [.int (-1)] =
      .ok (1, "-1".toList) := by decide
  rw [hprinted] at hrun
  cases hrun
  exact absurd hret (by decide)

end Cyancore.Libc
