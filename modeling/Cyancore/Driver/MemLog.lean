/-
# The log in memory

`membuf_writeb` stores what is logged into a buffer and starts over at its beginning when
the buffer is full; a backspace takes the last character back, without clearing its cell,
unless it would have to leave the beginning of the buffer.  `logger_dprint` reads the buffer
from its first cell to its last, wherever the writer is.

So a dump shows the last characters logged, cut at the writer and with the older half
behind; and it begins with the text as it has been edited, as long as that has fitted.
-/

import Cyancore.Driver.Attach
import Cyancore.Libc.DigitBuffer
import Cyancore.Math.CircularBuffer
import Cyancore.Math.Transition

namespace Cyancore.Driver

open Cyancore.Libc Cyancore.Math

/-- The static data of the driver; `MEMBUF_SIZE` is `n`. -/
structure MemLog (n : ℕ) where
  membuf : Vector Char n
  /-- `pointer` of `membuf_writeb`. -/
  pointer : ℕ
  /-- `pread` of `membuf_read`. -/
  pread : ℕ
  pointer_le : pointer ≤ n
  pread_lt : pread < n
  deriving DecidableEq

namespace MemLog

variable {n : ℕ}

/-- Where the next character goes: back to the beginning after the last cell. -/
def place (log : MemLog n) : ℕ := if log.pointer = n then 0 else log.pointer

theorem place_lt (log : MemLog n) : log.place < n := by
  have hle := log.pointer_le
  have hread := log.pread_lt
  rw [place]
  split
  · omega
  · omega

theorem place_eq (log : MemLog n) : log.place = log.pointer % n := by
  rw [place]
  split
  · next hfull => rw [hfull, Nat.mod_self]
  · next hfull => rw [Nat.mod_eq_of_lt (Nat.lt_of_le_of_ne log.pointer_le hfull)]

/-- `membuf_writeb`. -/
def writeb (c : Char) (log : MemLog n) : MemLog n :=
  if c = '\x08' ∧ log.pointer ≠ 0 then
    { log with
      pointer := log.pointer - 1
      pointer_le := (Nat.sub_le _ _).trans log.pointer_le }
  else
    { log with
      membuf := log.membuf.set log.place c log.place_lt
      pointer := log.place + 1
      pointer_le := log.place_lt }

/-- `membuf_read`: any status but `success` means that there is more. -/
def read (log : MemLog n) : (StatusCode × Char) × MemLog n :=
  let c := log.membuf.get ⟨log.pread, log.pread_lt⟩
  if h : log.pread + 1 = n then
    ((.success, c), { log with pread := 0, pread_lt := h ▸ Nat.succ_pos _ })
  else
    ((.errorGeneric, c),
      { log with pread := log.pread + 1, pread_lt := Nat.lt_of_le_of_ne log.pread_lt h })

end MemLog

/-! ## The layer above -/

variable {n : ℕ}

/-- One turn of the loop of `logger_dprint`: what was read goes to `fputc` in any case. -/
def dprintTurn {δ : Type} (read : δ → (StatusCode × Char) × δ) (device : Stream)
    (cursor : List (Stream × Char) × δ) :
    Run (Turn (List (Stream × Char) × δ) (List (Stream × Char) × δ)) :=
  let ((lvar, c), driver) := read cursor.2
  let writes := cursor.1 ++ fputc device false c
  if lvar = .success then .done (.exit (writes, driver)) else .done (.next (writes, driver))

/-- `logger_dprint`, with the data of the driver that is attached. -/
def loggerDprint {δ : Type} (read : δ → (StatusCode × Char) × δ) (device : Option Stream)
    (layer : Attachment Unit) (fuel : ℕ) (driver : δ) :
    Run (StatusCode × List (Stream × Char) × δ) :=
  match device with
  | none => .done (.errorDeviceInval, [], driver)
  | some device =>
      if layer.attached then do
        let (writes, driver) ← loop (dprintTurn read device) fuel ([], driver)
        .done (.success, writes, driver)
      else .done (.errorDeviceInval, [], driver)

/-- `logger_putc`. -/
def loggerPutc (c : Char) (layer : Attachment Unit) (log : MemLog n) :
    Run (StatusCode × MemLog n) :=
  guarded (.errorFuncInval, log) (fun _ => (.success, log.writeb c)) layer

/-- `membuf_driver_setup`. -/
def membufDriverSetup (layer : Attachment Unit) : StatusCode × Attachment Unit :=
  loggerAttachDevice .success (some ()) layer

/-! ## Runs of the clients -/

/-- A call. -/
inductive LogCall
  | driverSetup
  | driverExit
  | putc (c : Char)
  | dprint (device : Option Stream)
  deriving DecidableEq, Repr

/-- The layer and the driver, with what has been stored and printed. -/
structure LogRun (n : ℕ) where
  layer : Attachment Unit
  log : MemLog n
  /-- The characters that have reached the driver, in order. -/
  stored : List Char
  /-- What dumps have written. -/
  printed : List (Stream × Char)

/-- The state after a call; no dump takes more turns than there are cells. -/
def LogRun.next : LogCall → LogRun n → Option (LogRun n)
  | .driverSetup, run => some { run with layer := (membufDriverSetup run.layer).2 }
  | .driverExit, run => some { run with layer := (releaseDevice run.layer).2 }
  | .putc c, run =>
      match loggerPutc c run.layer run.log with
      | .done (_, log) =>
          some { run with
            log := log
            stored := if run.layer.attached then run.stored ++ [c] else run.stored }
      | _ => none
  | .dprint device, run =>
      match loggerDprint MemLog.read device run.layer n run.log with
      | .done (_, writes, log) => some { run with log := log, printed := run.printed ++ writes }
      | _ => none

/-- The logger from reset on. -/
def logSystem (n : ℕ) : TransitionSystem (LogRun n) LogCall :=
  .ofNext
    (fun run => run.layer = .detached ∧ run.log.membuf = Vector.replicate n '\x00' ∧
      run.log.pointer = 0 ∧ run.log.pread = 0 ∧ run.stored = [])
    LogRun.next

/-! ## What a dump writes -/

/-- The buffer about to be read from its first cell. -/
def MemLog.rewound (log : MemLog n) : MemLog n :=
  { log with pread := 0, pread_lt := Nat.zero_lt_of_lt log.pread_lt }

theorem MemLog.rewound_eq_self {log : MemLog n} (hread : log.pread = 0) : log.rewound = log := by
  cases log
  subst hread
  rfl

/-- A dump writes the cells from the reader on. -/
theorem loop_dprintTurn (device : Stream) {fuel : ℕ} (writes : List (Stream × Char))
    (log : MemLog n) (hfuel : n ≤ log.pread + fuel) :
    loop (dprintTurn MemLog.read device) fuel (writes, log) =
      .done (writes ++ (log.membuf.toList.drop log.pread).flatMap (fputc device false),
        log.rewound) := by
  induction fuel generalizing writes log with
  | zero => exact absurd log.pread_lt (Nat.not_lt_of_le hfuel)
  | succ fuel ih =>
      have hhere : log.membuf.toList.drop log.pread =
          log.membuf.get ⟨log.pread, log.pread_lt⟩ :: log.membuf.toList.drop (log.pread + 1) :=
        List.drop_eq_getElem_cons (by simpa using log.pread_lt)
      rw [hhere, List.flatMap_cons, ← List.append_assoc, loop]
      by_cases hlast : log.pread + 1 = n
      · have hnone : log.membuf.toList.drop (log.pread + 1) = [] := by
          simp [hlast]
        rw [hnone, List.flatMap_nil, List.append_nil]
        simp only [dprintTurn, MemLog.read, dif_pos hlast, if_true]
        rfl
      · simp only [dprintTurn, MemLog.read, dif_neg hlast]
        exact ih _ _ (by dsimp only; omega)

/-! ## The text that is stored -/

/-- A character typed at the end of a text: a backspace takes the last one back, if any. -/
def typed (text : List Char) (c : Char) : List Char :=
  if c = '\x08' ∧ text ≠ [] then text.dropLast else text ++ [c]

/-- The text as it has been edited. -/
def edited (stored : List Char) : List Char := stored.foldl typed []

/-- The text has never been longer than the buffer. -/
def HasFitted (n : ℕ) (stored : List Char) : Prop :=
  ∀ before, before <+: stored → (edited before).length ≤ n

/-- The last `n` characters, from a text of zeros on. -/
def recent (n : ℕ) (stored : List Char) : List Char :=
  (List.replicate n '\x00' ++ stored).drop stored.length

theorem length_recent (n : ℕ) (stored : List Char) : (recent n stored).length = n := by
  simp [recent]

theorem recent_append_singleton (hn : 0 < n) (stored : List Char) (c : Char) :
    recent n (stored ++ [c]) = (recent n stored).tail ++ [c] := by
  have hlength : stored.length + 1 ≤ (List.replicate n '\x00' ++ stored).length := by
    simp only [List.length_append, List.length_replicate]
    omega
  rw [recent, recent, List.tail_drop, List.length_append, List.length_singleton,
    ← List.append_assoc, List.drop_append_of_le_length hlength]

theorem edited_append_singleton (stored : List Char) (c : Char) :
    edited (stored ++ [c]) = typed (edited stored) c :=
  List.foldl_append

/-- The driver holds what has been stored. -/
structure MemLog.Holds (log : MemLog n) (stored : List Char) : Prop where
  pread : log.pread = 0
  recent : '\x08' ∉ stored → log.pointer % n = stored.length % n ∧
    Stored log.membuf stored.length (recent n stored)
  edited : HasFitted n stored → log.pointer = (edited stored).length ∧
    Stored log.membuf 0 (edited stored)

namespace MemLog

variable {log : MemLog n} {stored : List Char}

/-- The buffer out of reset. -/
theorem holds_cleared (hcells : log.membuf = Vector.replicate n '\x00') (hpointer : log.pointer = 0)
    (hpread : log.pread = 0) : log.Holds [] where
  pread := hpread
  recent := by
    refine fun _ => ⟨by rw [hpointer]; rfl, by simp [Driver.recent], fun i hi => ?_⟩
    have hn : 0 < n := Nat.zero_lt_of_lt log.pread_lt
    simp only [Driver.recent, List.length_nil, List.drop_zero, List.append_nil,
      List.length_replicate] at hi ⊢
    rw [hcells, Nat.zero_add, Nat.mod_eq_of_lt hi]
    simp [hi]
  edited := fun _ => ⟨hpointer, .nil _ _⟩

/-- A character joins the recent ones, unless it is a backspace. -/
theorem Holds.recent_writeb (hholds : log.Holds stored) {c : Char}
    (hplain : '\x08' ∉ stored ++ [c]) :
    (log.writeb c).pointer % n = (stored ++ [c]).length % n ∧
      Stored (log.writeb c).membuf (stored ++ [c]).length (Driver.recent n (stored ++ [c])) := by
  obtain ⟨hstored, hc⟩ : '\x08' ∉ stored ∧ c ≠ '\x08' := by
    simpa [eq_comm] using hplain
  obtain ⟨hpointer, hcells⟩ := hholds.recent hstored
  have hplace : log.place = stored.length % n := log.place_eq.trans hpointer
  rw [writeb, if_neg fun h => hc h.1, List.length_append, List.length_singleton,
    recent_append_singleton (Nat.zero_lt_of_lt log.pread_lt)]
  constructor
  · change (log.place + 1) % n = _
    rw [hplace, Nat.mod_add_mod]
  · exact hcells.push (length_recent n stored) log.place_lt hplace

/-- A character edits the text, if there is room. -/
theorem Holds.edited_writeb (hholds : log.Holds stored) {c : Char}
    (hfits : HasFitted n (stored ++ [c])) :
    (log.writeb c).pointer = (Driver.edited (stored ++ [c])).length ∧
      Stored (log.writeb c).membuf 0 (Driver.edited (stored ++ [c])) := by
  obtain ⟨hpointer, hcells⟩ :=
    hholds.edited fun before hbefore => hfits before (hbefore.trans (List.prefix_append _ _))
  have hempty : log.pointer ≠ 0 ↔ Driver.edited stored ≠ [] := by
    rw [hpointer, Ne, List.length_eq_zero_iff]
  have hroom := hfits _ (List.prefix_refl _)
  rw [edited_append_singleton, typed] at hroom ⊢
  by_cases hback : c = '\x08' ∧ log.pointer ≠ 0
  · rw [writeb, if_pos hback, if_pos ⟨hback.1, hempty.mp hback.2⟩]
    exact ⟨by simp [hpointer], hcells.of_prefix (List.dropLast_prefix _)⟩
  · have hback' : ¬ (c = '\x08' ∧ Driver.edited stored ≠ []) := by rwa [← hempty]
    rw [if_neg hback', List.length_append, List.length_singleton] at hroom
    have hplace : log.place = log.pointer := if_neg (by omega)
    rw [writeb, if_neg hback, if_neg hback']
    refine ⟨by simp [hplace, hpointer], hcells.append (by omega) log.place_lt ?_⟩
    rw [hplace, hpointer, Nat.zero_add, Nat.mod_eq_of_lt (by omega)]

/-- What is stored next. -/
theorem Holds.writeb (hholds : log.Holds stored) (c : Char) :
    (log.writeb c).Holds (stored ++ [c]) where
  pread := by
    rw [MemLog.writeb]
    split
    · exact hholds.pread
    · exact hholds.pread
  recent := hholds.recent_writeb
  edited := hholds.edited_writeb

/-- A dump writes the whole buffer and leaves it as it is. -/
theorem Holds.loop_dprintTurn (hholds : log.Holds stored) (device : Stream) :
    loop (dprintTurn read device) n ([], log) =
      .done (log.membuf.toList.flatMap (fputc device false), log) := by
  rw [Driver.loop_dprintTurn device [] log (Nat.le_add_left _ _), hholds.pread,
    rewound_eq_self hholds.pread]
  rfl

end MemLog

/-- The layer is detached or has the driver, and the driver holds what has been stored. -/
structure LogRun.Sound (run : LogRun n) : Prop where
  layer : run.layer = .detached ∨ run.layer = ⟨some (), true⟩
  holds : run.log.Holds run.stored

/-- A dump with the driver attached. -/
theorem LogRun.Sound.loggerDprint {run : LogRun n} (hsound : run.Sound)
    (hattached : run.layer.attached = true) (device : Stream) :
    loggerDprint MemLog.read (some device) run.layer n run.log =
      .done (.success, run.log.membuf.toList.flatMap (fputc device false), run.log) := by
  simp only [Driver.loggerDprint, hattached, if_true, hsound.holds.loop_dprintTurn]
  rfl

/-- A call keeps this. -/
theorem LogRun.Sound.next {run run' : LogRun n} {call : LogCall} (hsound : run.Sound)
    (hnext : run.next call = some run') : run'.Sound := by
  cases call with
  | driverSetup =>
      cases hnext
      exact ⟨.inr rfl, hsound.holds⟩
  | driverExit =>
      cases hnext
      exact ⟨.inl rfl, hsound.holds⟩
  | putc c =>
      rcases hsound.layer with hlayer | hlayer
      · simp only [LogRun.next, loggerPutc, guarded, hlayer, Attachment.detached] at hnext
        cases hnext
        exact ⟨.inl rfl, hsound.holds⟩
      · simp only [LogRun.next, loggerPutc, guarded, hlayer, if_true] at hnext
        cases hnext
        exact ⟨.inr rfl, hsound.holds.writeb c⟩
  | dprint device =>
      by_cases hprints : device.isSome ∧ run.layer.attached = true
      · obtain ⟨device, rfl⟩ := Option.isSome_iff_exists.mp hprints.1
        rw [LogRun.next, hsound.loggerDprint hprints.2] at hnext
        cases hnext
        exact ⟨hsound.layer, hsound.holds⟩
      · have hrefused : Driver.loggerDprint MemLog.read device run.layer n run.log =
            .done (.errorDeviceInval, [], run.log) := by
          cases device with
          | none => rfl
          | some device => simp_all [Driver.loggerDprint]
        rw [LogRun.next, hrefused] at hnext
        cases hnext
        exact ⟨hsound.layer, hsound.holds⟩

theorem LogRun.sound_of_reachable {run : LogRun n} {guard : LogCall → LogRun n → Prop}
    (hreach : (logSystem n).Reachable guard run) : run.Sound := by
  apply hreach.invariant LogRun.Sound
  · rintro start ⟨hlayer, hcells, hpointer, hpread, hstored⟩
    refine ⟨.inl hlayer, ?_⟩
    rw [hstored]
    exact MemLog.holds_cleared hcells hpointer hpread
  · exact fun _ _ _ hsound _ hnext => hsound.next hnext

end Cyancore.Driver
