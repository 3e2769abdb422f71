import Machine6809.Memory.Observed
import Machine6809.Proofs.Cpu.RegisterFile
import Machine6809.Proofs.Machine.Agreement
import Machine6809.Proofs.Machine.Events
import Mathlib.Data.Nat.Notation

/-!
# Every posted write is adopted once

Observers post writes to the registers at any time, between two cycles and also while an instruction
accesses memory. The processor adopts the writes that wait whenever it begins to work, and publishes
its registers whenever it is done.

All this is a history of calls on the register file (`Machine.history`), and the register file is
what that history makes of it (`RegisterFile.replay`). To say which writes are posted in the course
of an action, the machine is given a memory that also keeps a list of them (`Overheard`). The
machine does the same with it (`Attends`), since no action can see the list.
-/

namespace Machine6809

/-! ### Listening to memory -/

/-- A memory with a list of the writes that it has posted. -/
structure Overheard (μ : Type) where
  memory : μ
  heard : List RegisterWrite

/-- The write that a signal posts. -/
def Signal.write? : Signal → Option RegisterWrite
  | .post w => some w
  | .note _ => none

instance {μ : Type} [Memory μ] : Memory (Overheard μ) where
  load m address :=
    let r := Memory.load m.memory address
    { value := r.value, signals := r.signals,
      memory := { memory := r.memory, heard := m.heard ++ r.signals.filterMap Signal.write? } }
  store m address value :=
    let r := Memory.store m.memory address value
    { value := (), signals := r.signals,
      memory := { memory := r.memory, heard := m.heard ++ r.signals.filterMap Signal.write? } }

/-- The writes among the signals of memory go to the register file. -/
theorem file_foldl_absorb (signals : List Signal) (cpu : Cpu) :
    (signals.foldl Cpu.absorb cpu).file
      = (signals.filterMap Signal.write?).foldl RegisterFile.write cpu.file := by
  induction signals generalizing cpu with
  | nil => rfl
  | cons signal signals ih =>
    rw [List.foldl_cons, ih]
    cases signal <;> rfl

namespace Machine

section Listening

variable {μ α : Type}

/-- The machine with a memory that has heard nothing yet. -/
def attended (m : Machine μ) : Machine (Overheard μ) :=
  { cpu := m.cpu, memory := { memory := m.memory, heard := [] } }

/-- The writes that memory posts in the course of an action, the first one first. -/
def overheard (m : Machine μ) (x : Exec (Overheard μ) α) : List RegisterWrite :=
  (m.attended.after x).memory.heard

/-- The two machines differ only in the list of the writes, and since the register file was `file`
they are those that were posted to it. -/
def Attends (file : RegisterFile) (m : Machine μ) (n : Machine (Overheard μ)) : Prop :=
  m.cpu = n.cpu ∧ m.memory = n.memory.memory ∧
    m.cpu.file = n.memory.heard.foldl RegisterFile.write file

variable {file : RegisterFile}

/-- A machine is attended by itself, with nothing heard so far. -/
theorem attends_attended (m : Machine μ) : Attends m.cpu.file m m.attended := ⟨rfl, rfl, rfl⟩

/-- A change that the register file does not notice. -/
theorem agree_attends {f : Cpu → Cpu} (h : ∀ cpu, (f cpu).file = cpu.file) :
    Agree (Attends (μ := μ) file) (modifyCpu f) (modifyCpu f) := by
  intro m n hmn
  obtain ⟨cpu, memory, heard⟩ := hmn
  exact ⟨rfl, congrArg f cpu, memory, (h m.cpu).trans heard⟩

theorem arms_attends : Arms (Attends (μ := μ) file) := fun _ => agree_attends fun _ => rfl

theorem unlatches_attends : Unlatches (Attends (μ := μ) file) := agree_attends fun _ => rfl

theorem visits_attends : Visits (Attends (μ := μ) file) := fun _ => agree_attends fun _ => rfl

variable [Memory μ]

/-- All actions of the processor can be attended. -/
theorem frame_attends : Frame (Attends (μ := μ) file) where
  silent_eq _ _ h := congrArg Cpu.silent h.1
  load address := by
    intro ⟨cpu, memory⟩ ⟨cpu', memory', heard⟩ h
    obtain ⟨rfl, rfl, hfile⟩ := h
    -- the processor absorbs the signals of the access, and their writes are heard
    refine ⟨rfl, rfl, rfl, ?_⟩
    show (List.foldl Cpu.absorb cpu _).file = List.foldl _ file (heard ++ _)
    rw [file_foldl_absorb, List.foldl_append]
    exact congrArg (List.foldl _ · _) hfile
  store address value := by
    intro ⟨cpu, memory⟩ ⟨cpu', memory', heard⟩ h
    obtain ⟨rfl, rfl, hfile⟩ := h
    refine ⟨rfl, rfl, rfl, ?_⟩
    show (List.foldl Cpu.absorb cpu _).file = List.foldl _ file (heard ++ _)
    rw [file_foldl_absorb, List.foldl_append]
    exact congrArg (List.foldl _ · _) hfile
  modifyCpu _ plain := agree_attends plain.file

/-- Work posts what memory posts in its course. -/
theorem file_after_work (m : Machine μ) :
    (m.after work).cpu.file = (m.overheard work).foldl RegisterFile.write m.cpu.file :=
  (frame_attends.work arms_attends unlatches_attends visits_attends _ _ (attends_attended m)).2.2.2

/-- A reset reads its vector, during which writes may be posted, and then forgets those that
wait. -/
theorem file_after_reset (m : Machine μ) : (m.after reset).cpu.file =
    ((m.overheard reset).foldl RegisterFile.write m.cpu.file).take.2.publish
      (m.after reset).cpu.registers := by
  have h : Agree (Attends m.cpu.file) restart (restart : Exec (Overheard μ) Unit) :=
    (frame_attends.modifyRegisters _).bind fun _ => frame_attends.gotoVector _
  obtain ⟨-, -, -, hfile⟩ := h _ _ (attends_attended m)
  rw [after_reset]
  show RegisterFile.publish (RegisterFile.take _).2 _ = _
  rw [hfile]
  rfl

end Listening

/-! ### The history of the register file -/

section History

variable {μ : Type} [Memory μ]

/-- What the register file is told as something happens. -/
def calls (m : Machine μ) (e : Event) : List FileCall :=
  if m.Works e then
    .adopt :: (m.started.overheard work).map .write ++ [.publish (m.happen e).cpu.registers]
  else
    match e with
    | .write w => [.write w]
    | .reset => (m.overheard reset).map .write ++ [.discard, .publish (m.happen e).cpu.registers]
    | .nmi _ | .firq _ | .irq _ | .tick | .step => []

/-- What the register file is told as one thing happens after the other. -/
def history (m : Machine μ) : List Event → List FileCall
  | [] => []
  | e :: es => m.calls e ++ (m.happen e).history es

variable {m : Machine μ} {e : Event} {es : List Event}

/-- What an event with work calls: a handover, the writes overheard, and a publication. -/
theorem calls_of_works (h : m.Works e) : m.calls e =
    .adopt :: (m.started.overheard work).map .write ++ [.publish (m.happen e).cpu.registers] :=
  if_pos h

theorem foldl_call_map_write (ws : List RegisterWrite) (file : RegisterFile) :
    (ws.map .write).foldl RegisterFile.call file = ws.foldl RegisterFile.write file := by
  rw [List.foldl_map]
  rfl

/-- The register file as work is done, before the registers are published. -/
theorem file_before_publish (m : Machine μ) : (m.started.after work).cpu.file =
    (.adopt :: (m.started.overheard work).map .write).foldl RegisterFile.call m.cpu.file := by
  rw [file_after_work, List.foldl_cons, foldl_call_map_write]
  rfl

/-- The file has followed the calls of an event. -/
theorem file_happen (m : Machine μ) (e : Event) :
    (m.happen e).cpu.file = (m.calls e).foldl RegisterFile.call m.cpu.file := by
  by_cases h : m.Works e
  · obtain ⟨registers, -, file⟩ := cpu_of_works h
    rw [calls_of_works h, List.foldl_append, ← file_before_publish, file, registers]
    rfl
  · unfold calls
    rw [if_neg h]
    -- events without work: a reset calls, and a write is one call
    cases e with
    | step => exact absurd trivial h
    | reset =>
      rw [List.foldl_append, foldl_call_map_write]
      exact file_after_reset m
    | tick => rw [happen_tick_of_not_works h]; rfl
    | write _ | nmi _ | firq _ | irq _ => rfl

/-- The file has followed the calls of a run. -/
theorem file_run (m : Machine μ) (es : List Event) :
    (m.run es).cpu.file = (m.history es).foldl RegisterFile.call m.cpu.file := by
  induction es generalizing m with
  | nil => rfl
  | cons e es ih =>
    show ((m.happen e).run es).cpu.file = (m.calls e ++ (m.happen e).history es).foldl _ _
    rw [ih, List.foldl_append, file_happen]

/-- The registers change only with work and with a reset, which publish them. -/
theorem registers_happen (m : Machine μ) (e : Event) : (m.happen e).cpu.registers =
    (lastValue? FileCall.registers? (m.calls e)).getD m.cpu.registers := by
  -- work ends with a publication, and so does a reset
  by_cases h : m.Works e
  · rw [calls_of_works h, lastValue?_concat]
    rfl
  · unfold calls
    rw [if_neg h]
    cases e with
    | step => exact absurd trivial h
    | reset =>
      show _ = Option.getD (lastValue? _
        (_ ++ [FileCall.discard, FileCall.publish (m.happen .reset).cpu.registers])) _
      rw [lastValue?_append]
      rfl
    | tick => rw [happen_tick_of_not_works h]; rfl
    | write _ | nmi _ | firq _ | irq _ => rfl

/-- The registers are those published last in a run. -/
theorem registers_run (m : Machine μ) (es : List Event) : (m.run es).cpu.registers =
    (lastValue? FileCall.registers? (m.history es)).getD m.cpu.registers := by
  induction es generalizing m with
  | nil => rfl
  | cons e es ih =>
    show ((m.happen e).run es).cpu.registers = _
    rw [ih, registers_happen, ← Option.getD_or, ← lastValue?_append]
    rfl

end History

/-! ### Adoption -/

/-- The machine adopts the posted writes faithfully, given what its register file has been told. -/
structure Adopts {μ : Type} [Memory μ] (history : List FileCall) (m : Machine μ) : Prop where
  /-- The register file has done what it was told, also while the machine works. -/
  file : m.cpu.file = .replay history
  file_during : m.started.cpu.file = .replay (history ++ [.adopt]) ∧
    (m.started.after work).cpu.file =
      .replay (history ++ .adopt :: (m.started.overheard work).map .write)
  /-- The processor's registers are those that it has published last. -/
  registers : m.cpu.registers = FileCall.lastPublished history
  /-- Work begins with these, and a field that has been written to has the last value written. -/
  starts : ∀ field, m.started.cpu.registers.field field =
    (lastValue? (·.value? field) (FileCall.waiting history)).getD (m.cpu.registers.field field)
  /-- A write to S arms NMI, and no other write does anything to the lines. -/
  lines : m.started.cpu.lines =
    if (FileCall.waiting history).any fun w => (w.value? .s).isSome then
      { m.cpu.lines with nmiArmed := true }
    else m.cpu.lines
  /-- That is what every tick and every step with work to do begins with. -/
  works : ∀ e, m.Works e → (m.happen e).cpu.registers = (m.started.after work).cpu.registers
  /-- At all times the registers shown are those published last under the writes that waited then
  and the later ones. -/
  shows : ∀ earlier, earlier <+: history → ∀ field,
    (RegisterFile.replay earlier).published.field field =
      (lastValue? (·.value? field) (FileCall.shown earlier)).getD
        ((FileCall.lastPublished earlier).field field)
  /-- A write is handed over the next time that writes are handed over, and not once more. -/
  once : ∀ before w between call after,
    history = before ++ .write w :: between ++ call :: after →
    (∀ c ∈ between, c.takes = false) → call.takes = true →
      FileCall.waiting (before ++ .write w :: between)
        = FileCall.waiting before ++ w :: FileCall.writes between ∧
      ∀ later, later <+: after →
        FileCall.waiting (before ++ .write w :: between ++ call :: later) = FileCall.waiting later
  /-- A write that has not been handed over waits. -/
  waits : ∀ before w after, history = before ++ .write w :: after →
    (∀ c ∈ after, c.takes = false) →
      FileCall.waiting history = FileCall.waiting before ++ w :: FileCall.writes after

/-- S arms NMI if a write to it has been waiting. -/
theorem lines_started {μ : Type} (m : Machine μ) {history : List FileCall}
    (h : m.cpu.file = .replay history) : m.started.cpu.lines =
      if (FileCall.waiting history).any fun w => (w.value? .s).isSome then
        { m.cpu.lines with nmiArmed := true }
      else m.cpu.lines := by
  have posted : m.cpu.file.posted.s.isSome = true ↔
      (FileCall.waiting history).any (fun w => (w.value? .s).isSome) = true := by
    rw [h, RegisterFile.replay_eq, Posted.isSome_s_foldl_record, List.any_eq_true]
    simp [Posted.empty]
  show (if m.cpu.file.posted.s.isSome = true then _ else _) = _
  simp only [posted]
  rfl

/-- **Posted writes are adopted once.** Whatever happens to a new machine, and whatever its memory
posts in the meantime. -/
theorem posted_writes_adopted_once {μ : Type} [Memory μ] (memory : μ) (es : List Event) :
    Adopts ((ofMemory memory).history es) ((ofMemory memory).run es) := by
  have file : ((ofMemory memory).run es).cpu.file
      = .replay ((ofMemory memory).history es) := file_run (ofMemory memory) es
  have registers : ((ofMemory memory).run es).cpu.registers
      = FileCall.lastPublished ((ofMemory memory).history es) := registers_run (ofMemory memory) es
  -- all the rest follows from these two, wherever the machine and its history come from
  generalize (ofMemory memory).run es = m at *
  generalize (ofMemory memory).history es = history at *
  constructor
  case file => exact file
  case registers => exact registers
  case file_during =>
    constructor
    · rw [RegisterFile.replay_append, ← file]
      rfl
    · rw [RegisterFile.replay_append, ← file]
      exact file_before_publish m
  case starts =>
    intro field
    -- adopting the writes at once is the same as carrying them out one by one
    have overlay : m.started.cpu.registers
        = (FileCall.waiting history).foldl Registers.write m.cpu.registers := by
      rw [← RegisterFile.overlay_replay, ← file]
      rfl
    rw [overlay, Registers.field_foldl_write]
  case lines => exact lines_started m file
  case works => exact fun e h => (cpu_of_works h).1
  case shows =>
    intro earlier _ field
    rw [RegisterFile.replay_eq]
    exact Registers.field_foldl_write _ _ field
  case once =>
    intro before w between call after _ hbetween hcall
    constructor
    · -- waits until the next call that takes it,
      exact FileCall.waiting_append_of_not_takes before (.write w :: between)
        (List.forall_mem_cons.mpr ⟨rfl, hbetween⟩)
    · -- and is gone after it
      exact fun later _ => FileCall.waiting_append_of_takes _ later hcall
  case waits =>
    rintro before w after rfl hafter
    exact FileCall.waiting_append_of_not_takes before (.write w :: after)
      (List.forall_mem_cons.mpr ⟨rfl, hafter⟩)

/-- LDA from address 3, where each load posts a write to X. -/
def posting : Observed Ram :=
  { inner := { contents := #[0xB6, 0x00, 0x03, 0x42] },
    trigger := some { address := 3, write := .whole .x 0xBEEF }, stores := #[] }

/-- B is written before the instruction and X in the middle of it. -/
theorem posted_writes_adopted_once_posting :
    let m := (ofMemory posting).run [.write (.whole .b 0x07), .step]
    m.cpu.registers.x = 0 ∧ m.cpu.registers.b = 0x07 ∧ m.cpu.file.published.x = 0xBEEF ∧
      m.started.cpu.registers.x = 0xBEEF := by
  have h := posted_writes_adopted_once posting [.write (.whole .b 0x07), .step]
  have shown := h.shows _ (List.prefix_refl _) .x
  rw [← h.file] at shown
  exact ⟨congrArg Registers.x h.registers, congrArg Registers.b h.registers, shown, h.starts .x⟩

end Machine

end Machine6809
