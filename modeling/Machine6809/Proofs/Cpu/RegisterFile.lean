import Machine6809.Cpu.RegisterFile
import Machine6809.Proofs.Histories
import Mathlib.Data.List.DropRight
import Mathlib.Data.List.Induction
import Mathlib.Data.Nat.Notation

/-!
# What the register file shows and hands over

The register file is told four things: to take a write, to hand over the writes that wait, to forget
them, and to publish a set of registers. What it holds is said by the history of these calls, with
nothing but lists of writes:

* the writes that wait are those since the last time that writes were handed over or forgotten
  (`FileCall.waiting`),
* the registers shown are the last ones published, under the writes that waited then and all those
  that came later (`FileCall.shown`).

`RegisterFile.replay_eq` is that law. A write changes some of the fields of the registers
(`RegisterWrite.value?`); D is no field but a pair of them, and CC is eight. After many writes each
field has the last value that it was given (`Registers.field_foldl_write`).
-/

namespace Machine6809

/-! ### Fields -/

/-- One of the condition codes. -/
inductive Code where
  | e | f | h | i | n | z | v | c
  deriving DecidableEq

/-- What a write can change on its own. -/
inductive Field where
  | a | b | x | y | u | s | pc | dp
  | code (code : Code)
  deriving DecidableEq

/-- The entry for a condition code. -/
def PerFlag.get {α : Type} (p : PerFlag α) : Code → α
  | .e => p.e
  | .f => p.f
  | .h => p.h
  | .i => p.i
  | .n => p.n
  | .z => p.z
  | .v => p.v
  | .c => p.c

/-- The contents of a field as a word. -/
def Registers.field (r : Registers) : Field → Word
  | .a => r.a.toUInt16
  | .b => r.b.toUInt16
  | .x => r.x
  | .y => r.y
  | .u => r.u
  | .s => r.s
  | .pc => r.pc
  | .dp => r.dp.toUInt16
  | .code code => (r.cc.get code).toUInt16

/-- The value that a write gives to a field, if it touches the field at all. -/
def RegisterWrite.value? : RegisterWrite → Field → Option Word
  | .whole .d value, .a => some (highByte value).toUInt16
  | .whole .d value, .b => some (lowByte value).toUInt16
  | .whole .a value, .a | .whole .b value, .b | .whole .dp value, .dp =>
    some (lowByte value).toUInt16
  | .whole .x value, .x | .whole .y value, .y | .whole .u value, .u | .whole .s value, .s
  | .whole .pc value, .pc => some value
  | .whole .cc value, .code code => some ((Flags.ofByte (lowByte value)).get code).toUInt16
  | .codes mask on, .code code => if mask.get code then some on.toUInt16 else none
  | _, _ => none

/-- Codes in the mask are assigned, and the others stay. -/
theorem Flags.get_assign (cc mask : Flags) (on : Bool) (code : Code) :
    (cc.assign mask on).get code = if mask.get code then on else cc.get code := by
  cases code <;> rfl

/-- After a write a field has the value written, or the one from before. -/
theorem Registers.field_write (r : Registers) (w : RegisterWrite) (field : Field) :
    (r.write w).field field = (w.value? field).getD (r.field field) := by
  cases w with
  | whole name value =>
    cases field with
    | code code => cases name <;> rfl
    | _ => cases name <;> rfl
  | codes mask on =>
    cases field with
    | code code =>
      -- code by code: within the mask it is set, outside it stays
      show ((r.cc.assign mask on).get code).toUInt16
        = (if mask.get code then some on.toUInt16 else none).getD (r.cc.get code).toUInt16
      rw [Flags.get_assign]
      split_ifs <;> rfl
    | _ => rfl

/-- **The last write wins,** field by field. -/
theorem Registers.field_foldl_write (r : Registers) (ws : List RegisterWrite) (field : Field) :
    (ws.foldl Registers.write r).field field
      = (lastValue? (·.value? field) ws).getD (r.field field) := by
  induction ws using List.reverseRecOn with
  | nil => rfl
  | append_singleton ws w ih =>
    rw [List.foldl_append, lastValue?_concat, Option.getD_or, ← ih]
    exact field_write _ w field

/-! ### Posted writes -/

namespace Posted

theorem overlay_empty (r : Registers) : empty.overlay r = r := rfl

/-- Posting a write and carrying it out later is the same as carrying it out at once. -/
theorem overlay_record (p : Posted) (w : RegisterWrite) (r : Registers) :
    (p.record w).overlay r = (p.overlay r).write w := by
  cases w with
  | whole name value => cases name <;> rfl
  | codes mask on =>
    -- the masks say code by code whether anything was written
    have code : ∀ (selected : Bool) (old : Option Bool) (b : Bool),
        (if selected then some on else old).getD b = if selected then on else old.getD b := by
      intro selected old b
      cases selected <;> rfl
    simp only [record, overlay, Registers.write, Flags.assign, PerFlag.zipWith, code]

/-- Recording writes and then laying them over is writing them. -/
theorem overlay_foldl_record (p : Posted) (ws : List RegisterWrite) (r : Registers) :
    (ws.foldl record p).overlay r = ws.foldl Registers.write (p.overlay r) := by
  induction ws generalizing p with
  | nil => rfl
  | cons w ws ih => rw [List.foldl_cons, ih, overlay_record, List.foldl_cons]

/-- S is posted if one of the writes is to S. -/
theorem isSome_s_foldl_record (p : Posted) (ws : List RegisterWrite) :
    (ws.foldl record p).s.isSome = true ↔
      p.s.isSome = true ∨ ∃ w ∈ ws, (w.value? .s).isSome = true := by
  -- write by write; only a write of S as a whole posts S
  induction ws generalizing p with
  | nil => simp
  | cons w ws ih =>
    have first : (p.record w).s.isSome = true ↔
        p.s.isSome = true ∨ (w.value? .s).isSome = true := by
      cases w with
      | whole name value => cases name <;> simp [record, recordWhole, RegisterWrite.value?]
      | codes mask on => simp [record, RegisterWrite.value?]
    rw [List.foldl_cons, ih, first, List.exists_mem_cons_iff, or_assoc]

end Posted

/-! ### Calls -/

/-- What the register file is told. -/
inductive FileCall where
  /-- A write is posted. -/
  | write (w : RegisterWrite)
  /-- The processor takes the writes that wait over. -/
  | adopt
  /-- The writes that wait are forgotten. -/
  | discard
  /-- The processor publishes its registers. -/
  | publish (r : Registers)

namespace FileCall

/-- No write waits after the call. -/
def takes : FileCall → Bool
  | .adopt | .discard => true
  | .write _ | .publish _ => false

/-- The write that is posted. -/
def write? : FileCall → Option RegisterWrite
  | .write w => some w
  | .adopt | .discard | .publish _ => none

/-- The registers that are published. -/
def registers? : FileCall → Option Registers
  | .publish r => some r
  | .write _ | .adopt | .discard => none

/-- The writes among some calls. -/
def writes (history : List FileCall) : List RegisterWrite := history.filterMap write?

/-- The writes since the last time that writes were handed over or forgotten. -/
def waiting (history : List FileCall) : List RegisterWrite :=
  writes (history.rtakeWhile fun call => !call.takes)

/-- The registers that were published last. -/
def lastPublished (history : List FileCall) : Registers :=
  (lastValue? registers? history).getD Registers.zero

/-- The writes that waited when registers were published last, and those after that. -/
def shown (history : List FileCall) : List RegisterWrite :=
  waiting (history.rdropWhile fun call => call.registers?.isNone) ++
    writes (history.rtakeWhile fun call => call.registers?.isNone)

section Concat

variable (history later : List FileCall) {call : FileCall}

theorem writes_append :
    writes (history ++ later) = writes history ++ writes later :=
  List.filterMap_append

/-- A call that takes the writes leaves none waiting. -/
theorem waiting_concat_of_takes (h : call.takes = true) : waiting (history ++ [call]) = [] := by
  unfold waiting
  rw [List.rtakeWhile_concat_neg _ _ _ (by simp [h])]
  rfl

/-- Any other call leaves them waiting, and may add one. -/
theorem waiting_concat (h : call.takes = false) :
    waiting (history ++ [call]) = waiting history ++ writes [call] := by
  unfold waiting
  rw [List.rtakeWhile_concat_pos _ _ _ (by simp [h]), writes_append]

/-- With a publication the waiting writes are the ones shown over it. -/
theorem shown_concat_publish (r : Registers) :
    shown (history ++ [.publish r]) = waiting history := by
  unfold shown
  rw [List.rdropWhile_concat_neg _ _ _ (by simp [registers?]),
    List.rtakeWhile_concat_neg _ _ _ (by simp [registers?]), waiting_concat _ rfl]
  show (waiting history ++ []) ++ [] = waiting history
  rw [List.append_nil, List.append_nil]

theorem shown_concat (h : call.registers? = none) :
    shown (history ++ [call]) = shown history ++ writes [call] := by
  unfold shown
  rw [List.rdropWhile_concat_pos _ _ _ (by simp [h]),
    List.rtakeWhile_concat_pos _ _ _ (by simp [h]), writes_append, List.append_assoc]

/-- What was handed over does not come back. -/
theorem waiting_append_of_takes (h : call.takes = true) :
    waiting (history ++ call :: later) = waiting later := by
  induction later using List.reverseRecOn with
  | nil => exact waiting_concat_of_takes history h
  | append_singleton later last ih =>
    rw [← List.cons_append, ← List.append_assoc]
    -- if the last call takes as well, then nothing waits on either side
    cases hlast : last.takes with
    | true => rw [waiting_concat_of_takes _ hlast, waiting_concat_of_takes _ hlast]
    | false => rw [waiting_concat _ hlast, waiting_concat _ hlast, ih]

/-- What is posted waits until it is handed over. -/
theorem waiting_append_of_not_takes (h : ∀ call ∈ later, call.takes = false) :
    waiting (history ++ later) = waiting history ++ writes later := by
  induction later using List.reverseRecOn with
  | nil => rw [List.append_nil, writes, List.filterMap_nil, List.append_nil]
  | append_singleton later last ih =>
    have hlast := h last (by simp)
    have hlater : ∀ call ∈ later, call.takes = false := fun call hc => h call (by simp [hc])
    rw [← List.append_assoc, waiting_concat _ hlast, ih hlater, writes_append, List.append_assoc]

end Concat

end FileCall

namespace RegisterFile

open FileCall

/-- Do what a call says. -/
def call (file : RegisterFile) : FileCall → RegisterFile
  | .write w => file.write w
  | .adopt | .discard => file.take.2
  | .publish r => file.publish r

/-- The register file after a history of calls. -/
def replay (history : List FileCall) : RegisterFile := history.foldl call initial

theorem replay_append (history later : List FileCall) :
    replay (history ++ later) = later.foldl call (replay history) :=
  List.foldl_append

/-- **The register file is its history.** -/
theorem replay_eq (history : List FileCall) : replay history =
    { published := (shown history).foldl Registers.write (lastPublished history)
      posted := (waiting history).foldl Posted.record Posted.empty } := by
  -- both lists look back from the end of the history, so this is where it grows
  induction history using List.reverseRecOn with
  | nil => rfl
  | append_singleton history last ih =>
    rw [replay_append, ih]
    unfold lastPublished
    rw [lastValue?_concat]
    cases last with
    | write w =>
      rw [shown_concat _ rfl, waiting_concat _ rfl, List.foldl_append, List.foldl_append]
      rfl
    | adopt | discard =>
      rw [shown_concat _ rfl, waiting_concat_of_takes _ rfl, List.foldl_append]
      rfl
    | publish r =>
      -- the writes that wait are laid over the registers that are published
      rw [shown_concat_publish, waiting_concat _ rfl, List.foldl_append]
      show ({ published := Posted.overlay _ r, posted := _ } : RegisterFile) = _
      rw [Posted.overlay_foldl_record, Posted.overlay_empty]
      rfl

/-- The writes that wait are carried out as a whole when they are adopted. -/
theorem overlay_replay (history : List FileCall) (r : Registers) :
    (replay history).posted.overlay r = (waiting history).foldl Registers.write r := by
  rw [replay_eq, Posted.overlay_foldl_record, Posted.overlay_empty]

end RegisterFile

end Machine6809
