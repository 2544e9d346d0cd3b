/-
# Editing a word on its line

A key that rubs out takes the last character of a word away.  `vscanf` stores the first
character of a word whatever it is, and the test that keeps it from going below the start of
the array leaves a key that has nothing to rub out to the branch that stores characters.  So
a key of that kind ends up in the array, in front of what is typed later, until another such
key takes it away again.
-/

import Cyancore.Libc.LineEdit
import Mathlib.Algebra.Group.Nat.Even

namespace Cyancore.Libc

open Cyancore.Math

/-- What is typed for one word. -/
structure WordLine where
  spaces : List Char
  keys : List Char
  stop : Char
  spaces_isSpace : ∀ c ∈ spaces, isSpace c = true
  keys_not_space : ∀ c ∈ keys, isSpace c = false
  stop_isSpace : isSpace stop = true

/-- The characters of the line. -/
def WordLine.text (line : WordLine) : List Char := line.spaces ++ (line.keys ++ [line.stop])

/-- The conversion `%s` stores what is left of the keys, in every array that has a place for
each key and for the NUL. -/
def StoresWord (conf : LibcConfig) (line : WordLine) : Prop :=
  ∀ room, line.keys.length < room →
    ∃ word, @vscanf conf "%s".toList line.text [.str room] = .ok (1, [.str word]) ∧
      word = edited isRubOut line.keys ∧ ∀ c ∈ word, isRubOut c = false

/-! ## Keys that rub nothing out -/

/-- How many keys come to rub out where there is nothing left on the line. -/
def idleRubs : List Char → List Char → ℕ
  | _, [] => 0
  | line, c :: keys =>
      (if isRubOut c = true ∧ line = [] then 1 else 0) + idleRubs (editKey isRubOut line c) keys

/-- What the loop does to the array with a character that is not white space. -/
def storeKey (word : List Char) (c : Char) : List Char :=
  if word ≠ [] ∧ isRubOut c then word.dropLast else word ++ [c]

section Keys

variable {line keys : List Char} {c : Char}

/-- One key, on an array that holds the line behind at most one character that is not on it. -/
theorem storeKey_stray (stray : Option Char) (line : List Char) (c : Char) :
    ∃ stray' : Option Char,
      storeKey (stray.toList ++ line) c = stray'.toList ++ editKey isRubOut line c ∧
        (stray' = none ↔ (stray = none ↔ ¬ (isRubOut c = true ∧ line = []))) := by
  by_cases hrub : isRubOut c = true
  · rcases List.eq_nil_or_concat line with rfl | ⟨line, d, rfl⟩
    · -- A stray character is taken away, or the key becomes one.
      cases stray with
      | none =>
          refine ⟨some c, ?_, by simp [hrub]⟩
          simp [storeKey, editKey, hrub]
      | some r =>
          refine ⟨none, ?_, by simp [hrub]⟩
          simp [storeKey, editKey, hrub]
    · refine ⟨stray, ?_, by simp⟩
      simp [storeKey, editKey, hrub, ← List.append_assoc]
  · refine ⟨stray, ?_, by simp [hrub]⟩
    simp [storeKey, editKey, hrub]

/-- A stray character is in the array after an odd number of idle keys. -/
theorem foldl_storeKey (stray : Option Char) (line keys : List Char) :
    ∃ stray' : Option Char,
      keys.foldl storeKey (stray.toList ++ line) =
          stray'.toList ++ keys.foldl (editKey isRubOut) line ∧
        (stray' = none ↔ (stray = none ↔ Even (idleRubs line keys))) := by
  induction keys generalizing stray line with
  | nil => exact ⟨stray, rfl, by simp [idleRubs]⟩
  | cons c keys ih =>
      obtain ⟨middle, hfirst, hmiddle⟩ := storeKey_stray stray line c
      obtain ⟨stray', hrest, hstray⟩ := ih middle (editKey isRubOut line c)
      refine ⟨stray', by rw [List.foldl_cons, List.foldl_cons, hfirst, hrest], ?_⟩
      rw [hstray, hmiddle, idleRubs]
      by_cases hidle : isRubOut c = true ∧ line = []
      · rw [if_pos hidle, Nat.add_comm, Nat.even_add_one, iff_false_right (not_not.mpr hidle)]
        by_cases hnone : stray = none <;> simp [hnone]
      · rw [if_neg hidle, Nat.zero_add, iff_true_right hidle]

/-- The array holds the edited line exactly after an even number of idle keys. -/
theorem foldl_storeKey_eq_iff (keys : List Char) :
    keys.foldl storeKey [] = edited isRubOut keys ↔ Even (idleRubs [] keys) := by
  obtain ⟨stray, hword, hstray⟩ := foldl_storeKey none [] keys
  have hall : keys.foldl storeKey [] = stray.toList ++ edited isRubOut keys := hword
  rw [iff_true_left rfl] at hstray
  rw [hall, List.append_left_eq_self, ← hstray]
  cases stray <;> simp

theorem length_storeKey_le (word : List Char) (c : Char) :
    (storeKey word c).length ≤ word.length + 1 := by
  rw [storeKey]
  split_ifs
  · rw [List.length_dropLast]
    omega
  · rw [List.length_append, List.length_singleton]

end Keys

/-! ## The loop -/

section Loop

variable {conf : LibcConfig} {keys word : List Char} {stop : Char} {room : ℕ}

/-- With a place for every key, the loop does what the keys do to the array. -/
theorem readWord_keys (hkeys : ∀ k ∈ keys, isSpace k = false) (hstop : isSpace stop = true)
    (hroom : word.length + keys.length < room) (echo : List Char) :
    ∃ echo', readWord room (keys ++ [stop]) word echo =
      .ok (keys.foldl storeKey word, [], echo') := by
  induction keys generalizing word echo with
  | nil =>
      refine ⟨echo ++ [echoOf stop], ?_⟩
      rw [List.nil_append, readWord, if_pos hstop, if_pos (Nat.lt_of_add_right_lt hroom)]
      rfl
  | cons c keys ih =>
      have hspace := hkeys c List.mem_cons_self
      have hlength := length_storeKey_le word c
      rw [List.length_cons] at hroom
      have hrest := @ih (storeKey word c) (fun k hk => hkeys k (List.mem_cons_of_mem _ hk))
        (by omega)
      rw [List.cons_append, readWord, if_neg (by simp [hspace]), List.foldl_cons]
      by_cases hrub : word ≠ [] ∧ isRubOut c
      · rw [if_pos hrub]
        rw [storeKey, if_pos hrub] at hrest ⊢
        exact hrest _
      · rw [if_neg hrub, if_pos (by omega)]
        rw [storeKey, if_neg hrub] at hrest ⊢
        exact hrest _

end Loop

/-! ## The whole call -/

namespace WordLine

variable {conf : LibcConfig} {line : WordLine} {room : ℕ}

/-- The conversion `%s` stores what `scanWord` reads. -/
theorem vscanf_word (input : List Char) (targets : List ScanTarget) :
    vscanf "%s".toList input targets =
      (scanWord (⟨input, [], targets, [], 0⟩ : Scanning conf)).map fun st =>
        (st.ret, st.stored) := by
  have hfmt : "%s".toList = ['%', 's'] := rfl
  rw [vscanf, hfmt]
  simp only [scanLoop, scanStep, bind, Except.bind, if_true]
  cases scanWord (⟨input, [], targets, [], 0⟩ : Scanning conf) <;> rfl

/-- A line with a key is read to its end: the array holds what the keys, the first one
included, have stored. -/
theorem vscanf_text (hkeys : line.keys ≠ []) (hroom : line.keys.length < room) :
    @vscanf conf "%s".toList line.text [.str room] =
      .ok (1, [.str (line.keys.foldl storeKey [])]) := by
  obtain ⟨c, rest, hline⟩ := List.exists_cons_of_ne_nil hkeys
  have hnotSpace := line.keys_not_space
  rw [hline] at hnotSpace hroom ⊢
  obtain ⟨echo, hskipped⟩ := @skipSpace_append line.spaces (rest ++ [line.stop]) c
    line.spaces_isSpace (hnotSpace c List.mem_cons_self) []
  have hplaces : [c].length + rest.length < room := by
    rw [List.length_cons] at hroom
    rw [List.length_singleton]
    omega
  obtain ⟨echo', hread⟩ := readWord_keys (fun k hk => hnotSpace k (List.mem_cons_of_mem _ hk))
    line.stop_isSpace hplaces echo
  have hsome : room ≠ 0 := by omega
  rw [vscanf_word, text, hline, List.cons_append, scanWord]
  simp only [bind, Except.bind, hskipped, hsome, if_false, hread]
  rfl

/-- A line of nothing but white space is skipped to its end. -/
theorem vscanf_text_waiting (hkeys : line.keys = []) (room : ℕ) :
    @vscanf conf "%s".toList line.text [.str room] = .error .waiting := by
  have hspaces : ∀ k ∈ line.text, isSpace k = true := by
    rw [text, hkeys, List.nil_append]
    exact List.forall_mem_append.mpr
      ⟨line.spaces_isSpace, List.forall_mem_singleton.mpr line.stop_isSpace⟩
  rw [vscanf_word, scanWord]
  simp only [bind, Except.bind, skipSpace_waiting hspaces]
  rfl

end WordLine

/-- A word is stored as it was edited exactly when the line has a key, and the keys that come
to rub out where nothing is left are even in number. -/
theorem storesWord_iff (conf : LibcConfig) (line : WordLine) :
    StoresWord conf line ↔ line.keys ≠ [] ∧ Even (idleRubs [] line.keys) := by
  rw [← foldl_storeKey_eq_iff]
  constructor
  · intro hstores
    obtain ⟨word, hscan, hword, -⟩ := hstores _ (Nat.lt_succ_self _)
    have hkeys : line.keys ≠ [] := by
      intro hnone
      rw [WordLine.vscanf_text_waiting hnone] at hscan
      cases hscan
    rw [WordLine.vscanf_text hkeys (Nat.lt_succ_self _)] at hscan
    cases hscan
    exact ⟨hkeys, hword⟩
  · rintro ⟨hkeys, hsame⟩ room hroom
    refine ⟨edited isRubOut line.keys, ?_, rfl, fun c hc => (mem_edited hc).2⟩
    rw [WordLine.vscanf_text hkeys hroom, hsame]

/-- The second of two keys that rub out is stored, and stays in front of what follows. -/
theorem not_storesWord :
    ∃ line : WordLine, line.text = "a\x7f\x7fb\n".toList ∧
      @vscanf (.rv32 true) "%s".toList line.text [.str 80] =
        .ok (1, [.str "\x7fb".toList]) ∧
      edited isRubOut line.keys = "b".toList ∧ ¬ StoresWord (.rv32 true) line := by
  let line : WordLine :=
    ⟨[], ['a', '\x7f', '\x7f', 'b'], '\n', List.forall_mem_nil _,
      by simp [isSpace, isWhitespace], rfl⟩
  have hscan : @vscanf (.rv32 true) "%s".toList line.text [.str 80] =
      .ok (1, [.str "\x7fb".toList]) := by decide
  refine ⟨line, rfl, hscan, by decide, ?_⟩
  intro hstores
  obtain ⟨word, hword, hedited, -⟩ := hstores 80 (by decide)
  rw [hscan] at hword
  cases hword
  exact absurd hedited (by decide)

end Cyancore.Libc
