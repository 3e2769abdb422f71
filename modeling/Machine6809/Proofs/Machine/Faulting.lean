import Machine6809.Proofs.Machine.Executing
import Mathlib.Data.Nat.Notation

/-!
# Instructions that fail

An instruction of plain memory fails for one of three causes (`Ram.Cause`): its opcode has no row,
it is a store with an immediate operand, or it is indexed and its postbyte has no meaning. All three
are found while the instruction is decoded, before anything but PC has changed. So a step that fails
leaves the machine as the step found it, with the posted writes adopted, and PC behind the bytes
that were fetched by then (`faults_have_no_effect`).
-/

namespace Machine6809

namespace OpcodeMap

/-- The opcodes of the stores with an immediate operand: STA, STB, STX, STD, STU, STY and STS. -/
def storeImmediates : List Word := [0x87, 0xC7, 0x8F, 0xCD, 0xCF, 0x108F, 0x10CF]

/-- The opcodes without a way to find their operand are the immediate stores. -/
theorem mode_eq_invalid_iff :
    ∀ row ∈ rows, row.mode = .invalid ↔ row.code ∈ storeImmediates := by decide +kernel

/-- They have rows. -/
theorem storeImmediates_have_rows :
    ∀ code ∈ storeImmediates, ∃ row, lookup? code = some row ∧ row.mode = .invalid := by
  -- a statement about all members would be decided by going through all words
  have modes : storeImmediates.all fun code => (lookup? code).map (·.mode) = some .invalid := by
    decide +kernel
  intro code hcode
  have mode := of_decide_eq_true (List.all_eq_true.mp modes code hcode)
  exact Option.map_eq_some_iff.mp mode

/-- A row that is found is in the table, under its code. -/
theorem code_of_lookup? {code : Word} {row : Instruction} (h : lookup? code = some row) :
    row ∈ rows ∧ row.code = code := by
  refine ⟨List.mem_of_find?_eq_some h, ?_⟩
  have hcode := List.find?_some h
  exact beq_iff_eq.mp hcode

end OpcodeMap

namespace IndexedOperand

/-- The postbytes that have no meaning: bit 7 says that the form is in the low nibble, and bit 4
that it is indirect. No form has the nibbles 7, 10 and 14, the nibble 15 is a form only if it is
indirect, and the automatic steps by one (0 and 2) only if they are not. -/
def Meaningless (postbyte : Byte) : Prop :=
  bitOf postbyte 7 = true ∧
    (postbyte &&& 0x0F ∈ [0x7, 0xA, 0xE] ∨
      postbyte &&& 0x0F = 0xF ∧ bitOf postbyte 4 = false ∨
      postbyte &&& 0x0F ∈ [0x0, 0x2] ∧ bitOf postbyte 4 = true)

instance (postbyte : Byte) : Decidable (Meaningless postbyte) := by
  unfold Meaningless
  infer_instance

/-- The postbytes that are not decoded are those without a meaning. -/
theorem decode?_eq_none_iff (postbyte : Byte) :
    decode? postbyte = none ↔ Meaningless postbyte := by
  have all : ∀ n : Fin 256,
      decode? (UInt8.ofFin n) = none ↔ Meaningless (UInt8.ofFin n) := by decide +kernel
  exact all postbyte.toFin

end IndexedOperand

namespace Ram

variable (ram : Ram) (start : Word)

/-- The opcode at an address, with its prefix if it has one. -/
def opcodeAt : Word :=
  if ram.read start = 0x10 ∨ ram.read start = 0x11 then
    wordOf (ram.read start) (ram.read (start + 1))
  else (ram.read start).toUInt16

/-- The bytes of the opcode at an address. -/
def opcodeLengthAt : ℕ := opcodeLength (ram.opcodeAt start)

/-- The byte after the opcode at an address. -/
def postbyteAt : Byte := ram.read (start + UInt16.ofNat (ram.opcodeLengthAt start))

/-- Why the instruction at an address cannot be executed, and how many of its bytes show that. -/
inductive Cause : Fault → ℕ → Prop where
  | noRow (h : OpcodeMap.lookup? (ram.opcodeAt start) = none) :
    Cause (.invalidOpcode (ram.opcodeAt start) start) (ram.opcodeLengthAt start)
  | storeImmediate (h : ram.opcodeAt start ∈ OpcodeMap.storeImmediates) :
    Cause (.invalidAddressingMode (ram.opcodeAt start) start) (ram.opcodeLengthAt start)
  | meaningless {row : Instruction} (h : OpcodeMap.lookup? (ram.opcodeAt start) = some row)
    (indexed : row.mode = .indexed)
    (postbyte : IndexedOperand.Meaningless (ram.postbyteAt start)) :
    Cause (.invalidPostbyte (ram.postbyteAt start) start) (ram.opcodeLengthAt start + 1)

end Ram

namespace Machine

variable {m : Machine Ram} {fault : Fault} {n : ℕ}

/-- In plain RAM the opcode at PC is fetched, and PC goes behind it. -/
theorem fetchOpcode_eq (m : Machine Ram) :
    (m.gives fetchOpcode).1 = m.memory.opcodeAt m.cpu.registers.pc ∧
      m.after fetchOpcode = m.after (goto
        (m.cpu.registers.pc + UInt16.ofNat (m.memory.opcodeLengthAt m.cpu.registers.pc))) := by
  unfold Ram.opcodeLengthAt Ram.opcodeAt
  -- with a prefix, and without
  split_ifs with hprefix
  · obtain ⟨gives, after⟩ := fetchOpcode_prefixed (m := m) ⟨rfl, rfl, trivial⟩ hprefix
    rw [opcodeLength_wordOf hprefix, gives, after]
    exact ⟨rfl, rfl⟩
  · rw [not_or] at hprefix
    obtain ⟨gives, after⟩ := fetchOpcode_single (m := m) ⟨rfl, trivial⟩ hprefix.1 hprefix.2
    rw [opcodeLength_toUInt16, gives, after]
    exact ⟨rfl, rfl⟩

/-- So the operand begins behind the opcode. -/
theorem opened_eq (m : Machine Ram) :
    m.opened = m.decoded (m.memory.opcodeLengthAt m.cpu.registers.pc) := by
  unfold opened decoded
  rw [(fetchOpcode_eq m).2]

/-- Nothing has happened but that PC has moved past `n` bytes. -/
structure Consumed (n : ℕ) (m m' : Machine Ram) : Prop where
  memory : m'.memory = m.memory
  registers :
    m'.cpu.registers = { m.cpu.registers with pc := m.cpu.registers.pc + UInt16.ofNat n }
  lines : m'.cpu.lines = m.cpu.lines
  wait : m'.cpu.wait = m.cpu.wait
  file : m'.cpu.file = m.cpu.file
  totalCycles : m'.cpu.totalCycles = m.cpu.totalCycles

/-- Moving PC on consumes the bytes that it passes. -/
theorem consumed_goto (m : Machine Ram) (n : ℕ) :
    Consumed n m (m.after (goto (m.cpu.registers.pc + UInt16.ofNat n))) :=
  ⟨rfl, rfl, rfl, rfl, rfl, rfl⟩

/-- The machine behind an opcode has consumed it. -/
theorem consumed_decoded (m : Machine Ram) (n : ℕ) : Consumed n m (m.decoded n) :=
  ⟨rfl, rfl, rfl, rfl, rfl, rfl⟩

/-- Behind the postbyte it has consumed that as well. -/
theorem consumed_fetch_decoded (m : Machine Ram) (n : ℕ) :
    Consumed (n + 1) m ((m.decoded n).after fetch) := by
  refine ⟨rfl, ?_, rfl, rfl, rfl, rfl⟩
  rw [UInt16.ofNat_add, ← UInt16.add_assoc]
  rfl

/-- An instruction with a cause to fail fails, and has done nothing by then. -/
theorem executeNext_of_cause (h : m.memory.Cause m.cpu.registers.pc fault n) :
    m.gives executeNext = .error fault ∧ Consumed n m (m.after executeNext) := by
  obtain ⟨opcode, fetched⟩ := fetchOpcode_eq m
  cases h with
  -- nothing has a row under this opcode, and only the opcode is fetched
  | noRow h =>
    rw [← opcode] at h
    obtain ⟨gives, after⟩ := executeNext_of_unknown h
    rw [gives, after, opcode, fetched]
    exact ⟨rfl, consumed_goto m _⟩
  | storeImmediate h =>
    -- these opcodes have rows, but their mode locates nothing
    obtain ⟨row, hrow, invalid⟩ := OpcodeMap.storeImmediates_have_rows _ h
    have code := (OpcodeMap.code_of_lookup? hrow).2
    rw [← opcode] at hrow
    obtain ⟨gives, after⟩ := executeNext_of_row hrow
    have unlocated : m.opened.gives (resolve row.mode row.code m.cpu.registers.pc)
        = .error (.invalidAddressingMode row.code m.cpu.registers.pc) := by
      rw [invalid]
      rfl
    obtain ⟨failed, stopped⟩ := executeRow_of_fault (m.gives fetchOpcode).2 unlocated
    have resolved : m.opened.after (resolve row.mode row.code m.cpu.registers.pc) = m.opened := by
      rw [invalid]
      rfl
    rw [gives, after, failed, stopped, resolved, code, opened_eq]
    exact ⟨rfl, consumed_decoded m _⟩
  -- the postbyte has been fetched too when the mode is found to be no mode
  | @meaningless row h indexed postbyte =>
    rw [← opcode] at h
    obtain ⟨gives, after⟩ := executeNext_of_row h
    have fetch_eq : m.opened.gives fetch = m.memory.postbyteAt m.cpu.registers.pc := by
      rw [opened_eq]
      rfl
    have undecoded : IndexedOperand.decode? (m.opened.gives fetch) = none := by
      rw [fetch_eq]
      exact (IndexedOperand.decode?_eq_none_iff _).mpr postbyte
    obtain ⟨unlocated, resolved⟩ := resolveIndexed_of_meaningless m.cpu.registers.pc undecoded
    rw [fetch_eq] at unlocated
    have resolve_eq : (resolve row.mode row.code m.cpu.registers.pc : Exec Ram _)
        = resolveIndexed m.cpu.registers.pc := by
      rw [indexed]
      rfl
    rw [← resolve_eq] at unlocated resolved
    obtain ⟨failed, stopped⟩ := executeRow_of_fault (m.gives fetchOpcode).2 unlocated
    rw [gives, after, failed, stopped, resolved, opened_eq]
    exact ⟨rfl, consumed_fetch_decoded m _⟩

/-- Nothing else makes an instruction fail. -/
theorem exists_cause (h : m.gives executeNext = .error fault) :
    ∃ n, m.memory.Cause m.cpu.registers.pc fault n := by
  -- a cause that is known is the one asked for, since there is only one outcome
  have settle : ∀ {f n}, m.memory.Cause m.cpu.registers.pc f n →
      ∃ n, m.memory.Cause m.cpu.registers.pc fault n := by
    intro f n hf
    obtain rfl := Except.error.inj (h.symm.trans (executeNext_of_cause hf).1)
    exact ⟨n, hf⟩
  have opcode := (fetchOpcode_eq m).1
  cases hrow : OpcodeMap.lookup? (m.memory.opcodeAt m.cpu.registers.pc) with
  | none => exact settle (.noRow hrow)
  | some row =>
    obtain ⟨mem, code⟩ := OpcodeMap.code_of_lookup? hrow
    by_cases invalid : row.mode = .invalid
    · have store := (OpcodeMap.mode_eq_invalid_iff row mem).mp invalid
      rw [code] at store
      exact settle (.storeImmediate store)
    by_cases meaningless : row.mode = .indexed ∧
        IndexedOperand.Meaningless (m.memory.postbyteAt m.cpu.registers.pc)
    · exact settle (.meaningless hrow meaningless.1 meaningless.2)
    -- any other operand is located, and what is done with it cannot fail
    have located : row.mode = .indexed → IndexedOperand.decode? (m.opened.gives fetch) ≠ none := by
      intro indexed undecoded
      rw [opened_eq] at undecoded
      exact meaningless ⟨indexed, (IndexedOperand.decode?_eq_none_iff _).mp undecoded⟩
    obtain ⟨operand, hoperand⟩ := resolve_located invalid located row.code m.cpu.registers.pc
    rw [← opcode] at hrow
    obtain ⟨⟨extra, hused⟩, -⟩ := executeRow_of_located (m.gives fetchOpcode).2 hoperand
    rw [(executeNext_of_row hrow).1, hused] at h
    exact absurd h (by simp)

/-! ### Steps that fail -/

/-- After a fault the machine is as the step found it, with the posted writes adopted, but PC is
behind the `n` bytes that were fetched. The registers are published. -/
structure Unharmed (n : ℕ) (m m' : Machine Ram) : Prop where
  memory : m'.memory = m.memory
  registers : m'.cpu.registers =
    { m.started.cpu.registers with pc := m.started.cpu.registers.pc + UInt16.ofNat n }
  lines : m'.cpu.lines = m.started.cpu.lines
  totalCycles : m'.cpu.totalCycles = m.cpu.totalCycles
  wait : m'.cpu.wait = .normal
  file : m'.cpu.file = { published := m'.cpu.registers, posted := Posted.empty }

/-- Where there is a cause, the step faults and does no harm. -/
theorem step_of_cause (hm : m.started.Executes)
    (h : m.memory.Cause m.started.cpu.registers.pc fault n) :
    m.step = (.error fault, (m.started.after work).published) ∧
      Unharmed n m (m.started.after work).published := by
  obtain ⟨after, gives⟩ := work_of_executes hm
  obtain ⟨failed, consumed⟩ := executeNext_of_cause (m := m.started.awake) h
  refine ⟨step_of_error (gives.trans failed), ?_⟩
  rw [after]
  -- from here on it does not matter how the machine was left like that
  generalize m.started.awake.after executeNext = m' at consumed ⊢
  refine ⟨consumed.memory, consumed.registers, consumed.lines, consumed.totalCycles,
    consumed.wait, ?_⟩
  show RegisterFile.publish _ _ = _
  rw [consumed.file]
  rfl

/-- **Faults are without effect.** A step fails if and only if it executes an instruction that has a
cause to fail. The fault names the cause and the address of the instruction, and nothing but PC has
changed since the posted writes were adopted. -/
theorem faults_have_no_effect (m : Machine Ram) :
    (∀ fault, (∃ m', m.step = (.error fault, m')) ↔
      m.started.Executes ∧ ∃ n, m.memory.Cause m.started.cpu.registers.pc fault n) ∧
    ∀ fault m', m.step = (.error fault, m') →
      ∃ n, m.memory.Cause m.started.cpu.registers.pc fault n ∧ Unharmed n m m' := by
  -- a fault comes from the work of the step, and there from an instruction
  have cause : ∀ {fault m'}, m.step = (.error fault, m') →
      m.started.Executes ∧ ∃ n, m.memory.Cause m.started.cpu.registers.pc fault n := by
    intro fault m' hstep
    cases hwork : m.started.gives work with
    | ok used =>
      rw [step_of_ok hwork] at hstep
      exact absurd (congrArg Prod.fst hstep) (by simp)
    | error f =>
      rw [step_of_error hwork] at hstep
      obtain rfl := Except.error.inj (congrArg Prod.fst hstep)
      by_cases hm : m.started.Executes
      · rw [(work_of_executes hm).2] at hwork
        exact ⟨hm, exists_cause hwork⟩
      · obtain ⟨used, hused⟩ := work_of_not_executes hm
        exact absurd (hwork.symm.trans hused) (by simp)
  refine ⟨fun fault => ⟨fun ⟨m', hstep⟩ => cause hstep, ?_⟩, ?_⟩
  · -- the other way, every cause faults the step that comes to it
    rintro ⟨hm, n, h⟩
    exact ⟨_, (step_of_cause hm h).1⟩
  · intro fault m' hstep
    obtain ⟨hm, n, h⟩ := cause hstep
    obtain ⟨hfails, unharmed⟩ := step_of_cause hm h
    obtain rfl := congrArg Prod.snd (hfails.symm.trans hstep)
    exact ⟨n, h, unharmed⟩

/-- LDA with a postbyte that has no meaning, and a write to A posted before it. -/
def faultingLoad : Machine Ram :=
  { cpu := Cpu.initial.post (.whole .a 0x12), memory := { contents := #[0xA6, 0x87] } }

/-- The write that was posted before has come through, and PC is behind the postbyte. -/
theorem faults_have_no_effect_postbyte :
    ∃ m', faultingLoad.step = (.error (.invalidPostbyte 0x87 0), m') ∧
      m'.memory = faultingLoad.memory ∧
      m'.cpu.registers = { Registers.zero with a := 0x12, pc := 2 } := by
  have row : OpcodeMap.lookup? (faultingLoad.memory.opcodeAt 0) =
      some (Instruction.row 0xA6 "LDA" .indexed 4 (.binary .load .a)) := by decide +kernel
  have cause : faultingLoad.memory.Cause 0 (.invalidPostbyte 0x87 0) 2 :=
    .meaningless row rfl (by decide)
  -- it faults, and then nothing else can have happened
  obtain ⟨m', hstep⟩ :=
    ((faults_have_no_effect faultingLoad).1 _).mpr ⟨⟨rfl, .inl rfl⟩, 2, cause⟩
  obtain ⟨n, again, unharmed⟩ := (faults_have_no_effect faultingLoad).2 _ _ hstep
  refine ⟨m', hstep, unharmed.memory, ?_⟩
  cases again
  exact unharmed.registers

end Machine

end Machine6809
