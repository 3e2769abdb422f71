import Machine6809.Proofs.Machine.Adoption
import Machine6809.Proofs.Machine.Agreement
import Machine6809.Proofs.Machine.Events
import Machine6809.Proofs.Machine.Pacing
import Mathlib.Data.Nat.Notation

/-!
# Machines on memories that answer alike

The machine knows its memory only by the bytes that it loads and by the writes that are posted in
the meantime. If two memories give the same of both (`Answering`), then it makes no difference which
of them a machine has: whatever happens, the two processors stay the same but for their messages,
and the memories stay related (`Relates.run`). This is used in three ways.

* The memory is related to itself, with an invariant. What no access undoes goes on to hold
  (`Lasting.run`).
* One memory is the other with a record of the accesses. Keeping the record changes nothing
  (`Machine.memory_watched`).
* The two memories differ only in what does not matter to the processor.
-/

namespace Machine6809

/-- The writes among signals. -/
def writesOf (signals : List Signal) : List RegisterWrite := signals.filterMap Signal.write?

/-- Memories that are related by `S` give the same bytes and post the same writes, and after an
access they are still related. -/
structure Answering {μ ν : Type} [Memory μ] [Memory ν] (S : μ → ν → Prop) : Prop where
  load : ∀ M N address, S M N →
    (Memory.load M address).value = (Memory.load N address).value ∧
      writesOf (Memory.load M address).signals = writesOf (Memory.load N address).signals ∧
      S (Memory.load M address).memory (Memory.load N address).memory
  store : ∀ M N address value, S M N →
    writesOf (Memory.store M address value).signals
        = writesOf (Memory.store N address value).signals ∧
      S (Memory.store M address value).memory (Memory.store N address value).memory

/-- But for their messages the processors are the same, and the memories are related. -/
def Relates {μ ν : Type} (S : μ → ν → Prop) (m : Machine μ) (n : Machine ν) : Prop :=
  m.cpu.silent = n.cpu.silent ∧ S m.memory n.memory

/-- All that is left of signals is the writes that they post, and messages. -/
theorem silent_foldl_absorb (signals : List Signal) (cpu : Cpu) :
    (signals.foldl Cpu.absorb cpu).silent = (writesOf signals).foldl Cpu.post cpu.silent := by
  induction signals generalizing cpu with
  | nil => rfl
  | cons signal signals ih =>
    rw [List.foldl_cons, ih]
    cases signal <;> rfl

section Relates

variable {μ ν : Type} {S : μ → ν → Prop} {m : Machine μ} {n : Machine ν}

open Machine

/-- A change to the processors that does not depend on the messages. -/
theorem Relates.modify {f : Cpu → Cpu} (hf : ∀ cpu, (f cpu.silent).silent = (f cpu).silent)
    (h : Relates S m n) :
    Relates S { m with cpu := f m.cpu } { n with cpu := f n.cpu } := by
  refine ⟨?_, h.2⟩
  calc (f m.cpu).silent = (f m.cpu.silent).silent := (hf m.cpu).symm
    _ = (f n.cpu.silent).silent := by rw [h.1]
    _ = (f n.cpu).silent := hf n.cpu

/-- A change of the processor that does not look at its messages keeps machines related. -/
theorem agree_relates {f : Cpu → Cpu} (hf : ∀ cpu, (f cpu.silent).silent = (f cpu).silent) :
    Agree (Relates S) (modifyCpu f) (modifyCpu f) :=
  fun _ _ h => ⟨rfl, h.modify hf⟩

theorem arms_relates : Arms (Relates S) := fun _ => agree_relates fun _ => rfl

theorem unlatches_relates : Unlatches (Relates S) := agree_relates fun _ => rfl

theorem visits_relates : Visits (Relates S) := fun _ => agree_relates fun _ => rfl

variable [Memory μ] [Memory ν]

/-- Related machines run alike, if related memories answer alike. -/
theorem frame_relates (answering : Answering S) : Frame (Relates S) where
  silent_eq _ _ h := h.1
  load address := by
    intro ⟨cpu, M⟩ ⟨cpu', N⟩ ⟨hcpu, hmemory⟩
    obtain ⟨hvalue, hwrites, hafter⟩ := answering.load M N address hmemory
    refine ⟨hvalue, ?_, hafter⟩
    -- of the signals only the posted writes change more than the messages
    show (List.foldl Cpu.absorb cpu _).silent = (List.foldl Cpu.absorb cpu' _).silent
    rw [silent_foldl_absorb, silent_foldl_absorb, hwrites]
    exact congrArg (List.foldl Cpu.post · _) hcpu
  store address value := by
    intro ⟨cpu, M⟩ ⟨cpu', N⟩ ⟨hcpu, hmemory⟩
    obtain ⟨hwrites, hafter⟩ := answering.store M N address value hmemory
    refine ⟨rfl, ?_, hafter⟩
    show (List.foldl Cpu.absorb cpu _).silent = (List.foldl Cpu.absorb cpu' _).silent
    rw [silent_foldl_absorb, silent_foldl_absorb, hwrites]
    exact congrArg (List.foldl Cpu.post · _) hcpu
  modifyCpu _ plain := agree_relates plain.silent

/-! ### What happens to both -/

variable (answering : Answering S)
include answering

/-- The work of a tick is the same on related machines. -/
theorem Relates.work (h : Relates S m n) :
    m.gives work = n.gives work ∧ Relates S (m.after work) (n.after work) :=
  (frame_relates answering).work arms_relates unlatches_relates visits_relates m n h

theorem Relates.tick (h : Relates S m n) :
    m.tick.1 = n.tick.1 ∧ Relates S m.tick.2 n.tick.2 := by
  have countdown : m.cpu.countdown = n.cpu.countdown :=
    show m.cpu.silent.countdown = n.cpu.silent.countdown by rw [h.1]
  by_cases hzero : m.cpu.countdown = 0
  · -- both get to work, and what they publish afterwards is made of registers that agree
    have start : Relates S m.started n.started :=
      h.modify (f := fun cpu => Cpu.adopt { cpu with countdown := 0 }) fun _ => rfl
    obtain ⟨gives, after⟩ := start.work answering
    have hm := tick_withCountdown_zero m
    have hn := tick_withCountdown_zero n
    rw [withCountdown_self hzero] at hm
    rw [withCountdown_self (countdown ▸ hzero)] at hn
    rw [hm, hn, gives]
    cases n.started.gives Machine.work with
    | error fault => exact ⟨rfl, after.modify (f := Cpu.publish) fun _ => rfl⟩
    | ok used =>
      refine ⟨rfl, after.modify (f := fun cpu => { cpu.publish with
        countdown := used - 1, totalCycles := cpu.totalCycles + used }) fun _ => rfl⟩
  · -- both count down
    unfold Machine.tick
    rw [if_neg hzero, if_neg (countdown ▸ hzero)]
    exact ⟨rfl, h.modify (f := fun cpu => { cpu with countdown := cpu.countdown - 1 }) fun _ => rfl⟩

/-- A step is the same on related machines, with its report of cycles. -/
theorem Relates.step (h : Relates S m n) :
    m.step.1 = n.step.1 ∧ Relates S m.step.2 n.step.2 := by
  have start : Relates S (m.withCountdown 0) (n.withCountdown 0) :=
    h.modify (f := fun cpu => { cpu with countdown := 0 }) fun _ => rfl
  obtain ⟨result, after⟩ := start.tick answering
  have total {m' : Machine μ} {n' : Machine ν} (h' : Relates S m' n') :
      m'.cpu.totalCycles = n'.cpu.totalCycles :=
    show m'.cpu.silent.totalCycles = n'.cpu.silent.totalCycles by rw [h'.1]
  rw [step_eq, step_eq, result, total h, total after]
  exact ⟨rfl, after⟩

/-- So is a reset. -/
theorem Relates.reset (h : Relates S m n) :
    Relates S (m.after Machine.reset) (n.after Machine.reset) := by
  have frame := frame_relates answering
  -- the registers and the vector; the rest of the reset is the same on both sides
  have restart : Agree (Relates S) (Machine.restart : Exec μ Unit) Machine.restart :=
    (frame.modifyRegisters _).bind fun _ => frame.gotoVector _
  rw [after_reset, after_reset]
  exact (restart m n h).2.modify (f := fun cpu =>
    { cpu with
      lines := InterruptLines.released
      wait := .normal
      countdown := 0
      file := cpu.file.take.2.publish cpu.registers }) fun _ => rfl

/-- So is whatever happens to both. -/
theorem Relates.happen (h : Relates S m n) (e : Event) : Relates S (m.happen e) (n.happen e) := by
  cases e with
  | write w => exact h.modify (f := (Cpu.post · w)) fun _ => rfl
  | nmi asserted => exact h.modify (f := (Cpu.driveNmi · asserted)) fun _ => rfl
  | firq asserted => exact h.modify (f := (Cpu.driveFirq · asserted)) fun _ => rfl
  | irq asserted => exact h.modify (f := (Cpu.driveIrq · asserted)) fun _ => rfl
  | tick => exact (h.tick answering).2
  | step => exact (h.step answering).2
  | reset => exact h.reset answering

theorem Relates.run (h : Relates S m n) (es : List Event) : Relates S (m.run es) (n.run es) := by
  induction es generalizing m n with
  | nil => exact h
  | cons e es ih => exact ih (h.happen answering e)

/-- **Several ticks** give the same, counted as they go. -/
theorem Relates.ticks_go (h : Relates S m n) (k done : ℕ) :
    (ticks.go done k m).1 = (ticks.go done k n).1 ∧
      Relates S (ticks.go done k m).2 (ticks.go done k n).2 := by
  induction k generalizing m n done with
  | zero => exact ⟨rfl, h⟩
  | succ k ih =>
    obtain ⟨result, after⟩ := h.tick answering
    rw [ticks.go, ticks.go]
    -- the two ticks have one result, and the machines after them are related
    generalize m.tick = tick at result after ⊢
    generalize n.tick = tick' at result after ⊢
    obtain ⟨r, m'⟩ := tick
    obtain ⟨r', n'⟩ := tick'
    obtain rfl : r = r' := result
    cases r with
    | error fault => exact ⟨rfl, after⟩
    | ok => exact ih after (done + 1)

theorem Relates.ticks (h : Relates S m n) (k : ℕ) :
    (Machine.ticks k m).1 = (Machine.ticks k n).1 ∧
      Relates S (Machine.ticks k m).2 (Machine.ticks k n).2 :=
  h.ticks_go answering k 0

end Relates

/-! ### Invariants of memory -/

/-- A property of memory that no access undoes. -/
structure Lasting {μ : Type} [Memory μ] (I : μ → Prop) : Prop where
  load : ∀ M address, I M → I (Memory.load M address).memory
  store : ∀ M address value, I M → I (Memory.store M address value).memory

/-- The machine is the same twice, and its memory has the property. -/
abbrev Holds {μ : Type} (I : μ → Prop) (m n : Machine μ) : Prop :=
  Relates (fun M N => M = N ∧ I N) m n

/-- An action that keeps a property of memory keeps it. -/
theorem holds_after {μ α : Type} {I : μ → Prop} {x : Exec μ α} {m : Machine μ}
    (agree : Machine.Agree (Holds I) x x) (hm : I m.memory) : I (m.after x).memory :=
  (agree m m ⟨rfl, rfl, hm⟩).2.2.2

namespace Lasting

variable {μ : Type} [Memory μ] {I : μ → Prop} {m : Machine μ} (lasting : Lasting I)
include lasting

/-- Two memories that are the same, with a lasting property, answer alike. -/
theorem answering : Answering fun M N : μ => M = N ∧ I N where
  load := by
    rintro M _ address ⟨rfl, hM⟩
    exact ⟨rfl, rfl, rfl, lasting.load M address hM⟩
  store := by
    rintro M _ address value ⟨rfl, hM⟩
    exact ⟨rfl, rfl, lasting.store M address value hM⟩

theorem frame : Machine.Frame (Holds I) := frame_relates lasting.answering

theorem happen (hm : I m.memory) (e : Event) : I (m.happen e).memory :=
  (Relates.happen lasting.answering ⟨rfl, rfl, hm⟩ e : Holds I (m.happen e) (m.happen e)).2.2

theorem run (hm : I m.memory) (es : List Event) : I (m.run es).memory :=
  (Relates.run lasting.answering ⟨rfl, rfl, hm⟩ es : Holds I (m.run es) (m.run es)).2.2

end Lasting

/-! ### Watching the accesses -/

/-- An access to memory. -/
inductive MemoryAccess where
  | load (address : Word)
  | store (address : Word) (value : Byte)
  deriving DecidableEq

/-- A memory with a list of the accesses to it, the first one first. -/
structure Watched (μ : Type) where
  memory : μ
  accesses : List MemoryAccess

instance {μ : Type} [Memory μ] : Memory (Watched μ) where
  load M address :=
    let r := Memory.load M.memory address
    { value := r.value, signals := r.signals,
      memory := { memory := r.memory, accesses := M.accesses ++ [.load address] } }
  store M address value :=
    let r := Memory.store M.memory address value
    { value := (), signals := r.signals,
      memory := { memory := r.memory, accesses := M.accesses ++ [.store address value] } }

namespace Machine

variable {μ : Type}

/-- The machine with a memory that has not been accessed yet. -/
def watched (m : Machine μ) : Machine (Watched μ) :=
  { cpu := m.cpu, memory := { memory := m.memory, accesses := [] } }

variable [Memory μ]

/-- A watched memory answers as the memory in it does. -/
theorem answering_watched : Answering fun (M : μ) (N : Watched μ) => M = N.memory where
  load := by
    rintro _ N address rfl
    exact ⟨rfl, rfl, rfl⟩
  store := by
    rintro _ N address value rfl
    exact ⟨rfl, rfl⟩

/-- The accesses to memory as something happens, the first one first. -/
def accesses (m : Machine μ) (e : Event) : List MemoryAccess := (m.watched.happen e).memory.accesses

/-- A machine that is watched does the same. -/
theorem memory_watched (m : Machine μ) (e : Event) :
    (m.happen e).memory = (m.watched.happen e).memory.memory :=
  (Relates.happen (m := m) (n := m.watched) answering_watched ⟨rfl, rfl⟩ e).2

/-- Watched or not, the same opcode is fetched. -/
theorem fetchOpcode_watched (m : Machine μ) : m.gives fetchOpcode = m.watched.gives fetchOpcode :=
  ((frame_relates answering_watched).fetchOpcode m m.watched ⟨rfl, rfl⟩).1

/-- Watched or not, the machine is the same behind the opcode. -/
theorem relates_opened (m : Machine μ) :
    Relates (fun (M : μ) (N : Watched μ) => M = N.memory) m.opened m.watched.opened := by
  have frame := frame_relates (answering_watched (μ := μ))
  have fetched := (frame.fetchOpcode m m.watched ⟨rfl, rfl⟩).2
  exact (visits_relates m.cpu.registers.pc _ _ fetched).2

/-- A machine that is watched finds the same operand and is related when it has. -/
theorem relates_located (m : Machine μ) (row : Instruction) :
    m.opened.gives (resolve row.mode row.code m.cpu.registers.pc)
        = m.watched.opened.gives (resolve row.mode row.code m.cpu.registers.pc) ∧
      Relates (fun (M : μ) (N : Watched μ) => M = N.memory) (m.located row)
        (m.watched.located row) :=
  (frame_relates answering_watched).resolve row.mode row.code m.cpu.registers.pc _ _
    (relates_opened m)

/-- Watched or not, the same operand is located. -/
theorem locates_watched {m : Machine μ} {row : Instruction} {operand : Located} :
    m.watched.Locates row operand ↔ m.Locates row operand := by
  have fetched := fetchOpcode_watched m
  have resolved := (relates_located m row).1
  constructor
  · intro h
    exact ⟨fetched ▸ h.lookup, resolved.trans h.resolved⟩
  · intro h
    exact ⟨fetched ▸ h.lookup, resolved.symm.trans h.resolved⟩

/-- What the accesses so far say of memory now, they say afterwards of the memory of the machine. -/
theorem holds_of_accesses {P : μ → List MemoryAccess → Prop}
    (lasting : Lasting fun M : Watched μ => P M.memory M.accesses) {m : Machine μ}
    (start : P m.memory []) (e : Event) : P (m.happen e).memory (m.accesses e) := by
  rw [memory_watched]
  exact lasting.happen (m := m.watched) start e

end Machine

end Machine6809
