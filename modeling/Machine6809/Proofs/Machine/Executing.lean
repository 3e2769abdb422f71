import Machine6809.Memory.Ram
import Machine6809.Proofs.Machine.Actions
import Machine6809.Proofs.Machine.Stacks
import Mathlib.Data.Nat.Notation
import Mathlib.Tactic.SplitIfs

/-!
# What a step executes

Work looks at the interrupt lines first. `Machine.Executes` says that this leads to the instruction
at PC and not to an interrupt or to another idle cycle, and `work_of_executes`, `work_of_accepted`
and `work_of_wake` are the ways that work can take.

In plain memory an instruction is then known by the bytes at PC. `Machine.executed` takes it apart:
the opcode is fetched, the operand located and the operation performed, and the message at the end
changes nothing else.
-/

namespace Machine6809

/-- An instruction of the system table is found by its code. -/
theorem OpcodeMap.lookup_systemRow :
    ∀ row ∈ OpcodeMap.systemRows, OpcodeMap.lookup? row.code = some row := by decide +kernel

/-- Opcodes on the first page have one byte. -/
theorem opcodeLength_toUInt16 (first : Byte) : opcodeLength first.toUInt16 = 1 := by
  have hlt : first.toUInt16 < 0x100 := by
    rw [UInt16.lt_iff_toNat_lt, UInt8.toNat_toUInt16]
    exact first.toNat_lt
  exact if_pos hlt

/-- Opcodes behind a prefix have two. -/
theorem opcodeLength_wordOf {first : Byte} (h : first = 0x10 ∨ first = 0x11) (second : Byte) :
    opcodeLength (wordOf first second) = 2 := by
  refine if_neg ?_
  rw [UInt16.lt_iff_toNat_lt]
  have := second.toNat_lt
  obtain rfl | rfl := h <;> simp [wordOf] <;> omega

namespace Machine

/-! ### The first thing that work does -/

section Work

variable {μ : Type} {m : Machine μ} {source : InterruptSource}

/-- The next work executes the instruction at PC: no interrupt is accepted first, and the machine
does not wait or is about to wake up. -/
def Executes (m : Machine μ) : Prop :=
  m.cpu.lines.accepted m.cpu.registers.cc = none ∧
    (m.cpu.wait = .normal ∨ m.cpu.wait = .sync ∧ m.cpu.lines.wakes = true)

/-- The machine without its wait. -/
def awake (m : Machine μ) : Machine μ := { m with cpu := { m.cpu with wait := .normal } }

/-- A processor that was not waiting is awake already. -/
theorem awake_of_normal (h : m.cpu.wait = .normal) : m.awake = m := by
  obtain ⟨⟨⟩⟩ := m
  cases h
  rfl

/-- An interrupt that is accepted ends a wait. -/
theorem wakes_of_accepted {lines : InterruptLines} {cc : Flags}
    (h : lines.accepted cc = some source) : lines.wakes = true := by
  unfold InterruptLines.accepted at h
  unfold InterruptLines.wakes
  split_ifs at h <;> simp_all

variable [Memory μ]

/-- An accepted interrupt is entered with a whole frame to push. -/
theorem serviceInterrupts_of_accepted (hw : m.cpu.wait ≠ .cwai)
    (h : m.cpu.lines.accepted m.cpu.registers.cc = some source) :
    m.gives serviceInterrupts = some (entryCycles source) ∧
      m.after serviceInterrupts = m.awake.after (enterInterrupt source false) := by
  cases wait : m.cpu.wait with
  | normal =>
    rw [awake_of_normal wait]
    simp [serviceInterrupts, h, wait]
  | sync => simp [serviceInterrupts, wait, h, wakes_of_accepted h, awake]
  | cwai => exact absurd wait hw

/-- After CWAI the frame has been pushed before. -/
theorem serviceInterrupts_of_wake (hw : m.cpu.wait = .cwai)
    (h : m.cpu.lines.accepted m.cpu.registers.cc = some source) :
    m.gives serviceInterrupts = some wakeCycles ∧
      m.after serviceInterrupts = m.awake.after (enterInterrupt source true) := by
  simp [serviceInterrupts, hw, h, awake]

/-- Without an interrupt, a processor that executes only wakes up. -/
theorem serviceInterrupts_of_executes (h : m.Executes) :
    m.gives serviceInterrupts = none ∧ m.after serviceInterrupts = m.awake := by
  obtain ⟨hn, hw | ⟨hw, wakes⟩⟩ := h
  · rw [awake_of_normal hw]
    simp [serviceInterrupts, hn, hw]
  · simp [serviceInterrupts, hn, hw, wakes, awake]

/-- One that goes on waiting does nothing. -/
theorem serviceInterrupts_of_idle (ha : m.cpu.lines.accepted m.cpu.registers.cc = none)
    (h : ¬m.Executes) : m.gives serviceInterrupts = none ∧ m.after serviceInterrupts = m := by
  unfold Executes at h
  cases wait : m.cpu.wait <;> simp_all [serviceInterrupts]

/-- If the processor executes, the work of a tick is an instruction. -/
theorem work_of_executes (h : m.Executes) :
    m.after work = m.awake.after executeNext ∧ m.gives work = m.awake.gives executeNext := by
  obtain ⟨gives, after⟩ := serviceInterrupts_of_executes h
  simp [work, gives, after, awake]

/-- With an interrupt accepted, it is the entry. -/
theorem work_of_accepted (hw : m.cpu.wait ≠ .cwai)
    (h : m.cpu.lines.accepted m.cpu.registers.cc = some source) :
    m.after work = m.awake.after (enterInterrupt source false) ∧
      m.gives work = .ok (entryCycles source) := by
  obtain ⟨gives, after⟩ := serviceInterrupts_of_accepted hw h
  simp [work, gives, after]

/-- After CWAI the entry does without a frame. -/
theorem work_of_wake (hw : m.cpu.wait = .cwai)
    (h : m.cpu.lines.accepted m.cpu.registers.cc = some source) :
    m.after work = m.awake.after (enterInterrupt source true) ∧
      m.gives work = .ok wakeCycles := by
  obtain ⟨gives, after⟩ := serviceInterrupts_of_wake hw h
  simp [work, gives, after]

/-- A wait goes on for another cycle. -/
theorem work_of_idle (ha : m.cpu.lines.accepted m.cpu.registers.cc = none) (h : ¬m.Executes) :
    m.after work = m ∧ m.gives work = .ok 1 := by
  obtain ⟨gives, after⟩ := serviceInterrupts_of_idle ha h
  have waiting : m.cpu.wait ≠ .normal := fun normal => h ⟨ha, .inl normal⟩
  simp [work, gives, after, waiting]

/-- Work that executes nothing does not fail. -/
theorem work_of_not_executes (h : ¬m.Executes) : ∃ used, m.gives work = .ok used := by
  cases accepted : m.cpu.lines.accepted m.cpu.registers.cc with
  | some source =>
    by_cases hw : m.cpu.wait = .cwai
    · exact ⟨_, (work_of_wake hw accepted).2⟩
    · exact ⟨_, (work_of_accepted hw accepted).2⟩
  | none => exact ⟨1, (work_of_idle accepted h).2⟩

end Work

/-! ### Instructions -/

section Decoding

variable {μ : Type} [Memory μ] {m : Machine μ} {row : Instruction} {start : Word}
  {operand : Located} {fault : Fault}

/-- An opcode without an instruction faults as soon as it has been fetched. -/
theorem executeNext_of_unknown (h : OpcodeMap.lookup? (m.gives fetchOpcode).1 = none) :
    m.gives executeNext = .error (.invalidOpcode (m.gives fetchOpcode).1 m.cpu.registers.pc) ∧
      m.after executeNext = m.after fetchOpcode := by
  simp [executeNext, h]

/-- The machine as it executes the row of its opcode. -/
def opened (m : Machine μ) : Machine μ :=
  (m.after fetchOpcode).after (modifyCpu (·.visit m.cpu.registers.pc))

/-- An opcode with an instruction runs that instruction. -/
theorem executeNext_of_row (h : OpcodeMap.lookup? (m.gives fetchOpcode).1 = some row) :
    m.gives executeNext
        = m.opened.gives (executeRow row m.cpu.registers.pc (m.gives fetchOpcode).2) ∧
      m.after executeNext
        = m.opened.after (executeRow row m.cpu.registers.pc (m.gives fetchOpcode).2) := by
  simp [executeNext, h, opened]

/-- A fault in the operand ends the instruction before it does anything. -/
theorem executeRow_of_fault (bytes : List Byte)
    (h : m.gives (resolve row.mode row.code start) = .error fault) :
    m.gives (executeRow row start bytes) = .error fault ∧
      m.after (executeRow row start bytes) = m.after (resolve row.mode row.code start) := by
  simp [executeRow, h]

/-- With its operand located an instruction does what it is for, and says so. -/
theorem executeRow_of_located (bytes : List Byte)
    (h : m.gives (resolve row.mode row.code start) = .ok operand) :
    (∃ extra, m.gives (executeRow row start bytes)
        = .ok (row.cycles + operand.cycles + extra)) ∧
      m.after (executeRow row start bytes)
        = ((m.after (resolve row.mode row.code start)).after
          (perform row.operation operand.address)).after
            (noteExecuted start row.mnemonic (bytes ++ operand.bytes)) := by
  simp [executeRow, h]

omit [Memory μ] in
theorem registers_noteExecuted (start : Word) (mnemonic : String) (bytes : List Byte)
    (m : Machine μ) :
    (m.after (noteExecuted start mnemonic bytes)).cpu.registers = m.cpu.registers := by
  simp only [noteExecuted, after_modifyCpu]
  split_ifs <;> rfl

omit [Memory μ] in
theorem wait_noteExecuted (start : Word) (mnemonic : String) (bytes : List Byte)
    (m : Machine μ) :
    (m.after (noteExecuted start mnemonic bytes)).cpu.wait = m.cpu.wait := by
  simp only [noteExecuted, after_modifyCpu]
  split_ifs <;> rfl

/-- A postbyte that means nothing faults after it has been fetched. -/
theorem resolveIndexed_of_meaningless (start : Word)
    (h : IndexedOperand.decode? (m.gives fetch) = none) :
    m.gives (resolveIndexed start) = .error (.invalidPostbyte (m.gives fetch) start) ∧
      m.after (resolveIndexed start) = m.after fetch := by
  simp [resolveIndexed, h]

/-- An operand is located unless the instruction has no such mode or the postbyte no meaning. -/
theorem resolve_located {mode : AddressingMode} (hmode : mode ≠ .invalid)
    (hindexed : mode = .indexed → IndexedOperand.decode? (m.gives fetch) ≠ none)
    (code start : Word) : ∃ operand, m.gives (resolve mode code start) = .ok operand := by
  cases mode with
  | invalid => exact absurd rfl hmode
  | indexed =>
    obtain ⟨operand, hoperand⟩ := Option.ne_none_iff_exists'.mp (hindexed rfl)
    simp only [resolve, resolveIndexed, gives_bind, hoperand]
    split_ifs <;> exact ⟨_, rfl⟩
  | _ => simp [resolve]

end Decoding

/-! ### Instructions in plain memory -/

section Instructions

variable {m m' : Machine Ram} {first second : Byte}

/-- Loading from plain RAM changes nothing. -/
theorem after_load (address : Word) (m : Machine Ram) : m.after (load address) = m := rfl

theorem gives_load (address : Word) (m : Machine Ram) :
    m.gives (load address) = m.memory.read address := rfl

/-- Fetching from plain RAM moves PC on. -/
theorem after_fetch (m : Machine Ram) :
    m.after fetch = m.after (goto (m.cpu.registers.pc + 1)) := rfl

theorem gives_fetch (m : Machine Ram) : m.gives fetch = m.memory.read m.cpu.registers.pc := rfl

/-- The machine past an opcode of some bytes. -/
def decoded (m : Machine Ram) (length : ℕ) : Machine Ram :=
  (m.after (goto (m.cpu.registers.pc + UInt16.ofNat length))).after
    (modifyCpu (·.visit m.cpu.registers.pc))

/-- An opcode without a prefix is fetched in one go. -/
theorem fetchOpcode_single (h : m.memory.Holds m.cpu.registers.pc [first])
    (h0 : first ≠ 0x10) (h1 : first ≠ 0x11) :
    m.gives fetchOpcode = (first.toUInt16, [first]) ∧
      m.after fetchOpcode = m.after (goto (m.cpu.registers.pc + UInt16.ofNat 1)) := by
  obtain ⟨hfirst, -⟩ := h
  simp [fetchOpcode, gives_fetch, after_fetch, hfirst, h0, h1]

/-- One with a prefix is fetched in two. -/
theorem fetchOpcode_prefixed (h : m.memory.Holds m.cpu.registers.pc [first, second])
    (hf : first = 0x10 ∨ first = 0x11) :
    m.gives fetchOpcode = (wordOf first second, [first, second]) ∧
      m.after fetchOpcode = m.after (goto (m.cpu.registers.pc + UInt16.ofNat 2)) := by
  obtain ⟨hfirst, hsecond, -⟩ := h
  have two : m.cpu.registers.pc + 2 = m.cpu.registers.pc + 1 + 1 := by grind
  simp [fetchOpcode, gives_fetch, after_fetch, hfirst, hf, goto, hsecond, two]

/-- The instruction at PC is executed from `m`, and but for the messages the machine is then
`m'`. -/
structure Executed (m m' : Machine Ram) : Prop where
  gives : ∃ used, m.gives executeNext = .ok used
  registers : (m.after executeNext).cpu.registers = m'.cpu.registers
  memory : (m.after executeNext).memory = m'.memory
  wait : (m.after executeNext).cpu.wait = m'.cpu.wait

/-- An instruction of the system table whose operand has been located is executed. -/
theorem executed (row : Instruction) (operand : Located) {bytes : List Byte} {n : ℕ}
    (hrow : row ∈ OpcodeMap.systemRows)
    (hf : m.gives fetchOpcode = (row.code, bytes) ∧
      m.after fetchOpcode = m.after (goto (m.cpu.registers.pc + UInt16.ofNat n)))
    (hres : (m.decoded n).gives (resolve row.mode row.code m.cpu.registers.pc) = .ok operand) :
    Executed m (((m.decoded n).after (resolve row.mode row.code m.cpu.registers.pc)).after
      (perform row.operation operand.address)) := by
  -- after the opcode PC is behind it, and the operand begins there
  have opened : m.opened = m.decoded n := by
    rw [Machine.opened, hf.2]
    rfl
  have lookup : OpcodeMap.lookup? (m.gives fetchOpcode).1 = some row := by
    rw [hf.1]
    exact OpcodeMap.lookup_systemRow row hrow
  obtain ⟨gives, after⟩ := executeNext_of_row lookup
  rw [opened, hf.1] at gives after
  obtain ⟨⟨extra, cost⟩, done⟩ := executeRow_of_located bytes hres
  rw [done] at after
  refine ⟨⟨_, gives.trans cost⟩, ?_, ?_, ?_⟩
  · rw [after, registers_noteExecuted]
  · rw [after]
    rfl
  · rw [after, wait_noteExecuted]

end Instructions

end Machine

end Machine6809
