import Machine6809.Proofs.Cpu.Indexing
import Machine6809.Proofs.Cpu.Leaps
import Machine6809.Proofs.Machine.Codes
import Machine6809.Proofs.Machine.Comparing
import Machine6809.Proofs.Machine.Faulting
import Machine6809.Proofs.Machine.Simulation
import Mathlib.Data.Nat.Notation

/-!
# How long an instruction is

The bytes of an instruction are those that are loaded before its operation is performed, but for the
pointer of an indirect operand. Machines whose memory is watched show them: fetching loads one byte
after the other from PC upward and moves PC along (`Machine.Consumes`). What is known of the
operation is only that it does not touch PC unless it leaps.
-/

namespace Machine6809

/-- Some addresses in a row, from the first one upward. They go around at the end of memory. -/
def addressesFrom (first : Word) (n : ℕ) : List Word :=
  (List.range n).map fun k => first + UInt16.ofNat k

theorem addressesFrom_succ (first : Word) (n : ℕ) :
    addressesFrom first (n + 1) = first :: addressesFrom (first + 1) n := by
  simp only [addressesFrom, List.range_succ_eq_map, List.map_cons, List.map_map]
  congr 1
  · simp
  · exact List.map_congr_left fun k _ => add_ofNat_succ first k

/-- Two runs of addresses, one behind the other. -/
theorem addressesFrom_add (first : Word) (n k : ℕ) :
    addressesFrom first (n + k)
      = addressesFrom first n ++ addressesFrom (first + UInt16.ofNat n) k := by
  simp [addressesFrom, List.range_add, UInt16.ofNat_add, UInt16.add_assoc]

namespace Ram

variable (ram : Ram)

/-- The bytes from an address upward. -/
def bytesAt (first : Word) (n : ℕ) : List Byte := (addressesFrom first n).map ram.read

/-- Two runs of bytes, one behind the other. -/
theorem bytesAt_add (first : Word) (n k : ℕ) :
    ram.bytesAt first (n + k)
      = ram.bytesAt first n ++ ram.bytesAt (first + UInt16.ofNat n) k := by
  rw [bytesAt, addressesFrom_add, List.map_append]
  rfl

/-- The bytes of an operand at an address. -/
def operandLengthAt (mode : AddressingMode) (address : Word) : ℕ :=
  mode.operandLength + if mode = .indexed then offsetLength (ram.read address) else 0

/-- The bytes of the instruction of a row at an address. -/
def lengthAt (start : Word) (row : Instruction) : ℕ :=
  row.size + if row.mode = .indexed then offsetLength (ram.postbyteAt start) else 0

end Ram

/-- The size in the table is that of opcode and operand, without what a postbyte may add. -/
theorem Instruction.rows_size : ∀ row ∈ OpcodeMap.rows, row.mode = .invalid ∨
    row.size = opcodeLength row.code + row.mode.operandLength := by
  decide +kernel

namespace Machine

/-! ### Fetching -/

section Fetching

/-- A machine has loaded bytes from PC upward and moved PC past them, and then it has accessed
memory some more without writing to it. -/
structure Consumes (n : ℕ) (more : List MemoryAccess) (w w' : Machine (Watched Ram)) : Prop where
  pc : w'.cpu.registers.pc = w.cpu.registers.pc + UInt16.ofNat n
  ram : w'.memory.memory = w.memory.memory
  accesses : w'.memory.accesses
    = w.memory.accesses ++ (addressesFrom w.cpu.registers.pc n).map .load ++ more

variable {w w' w'' : Machine (Watched Ram)} {n k : ℕ} {more : List MemoryAccess}

theorem Consumes.refl (w : Machine (Watched Ram)) : Consumes 0 [] w w :=
  ⟨by simp, rfl, by simp [addressesFrom]⟩

/-- What is consumed in two parts adds up. -/
theorem Consumes.trans (h : Consumes n [] w w') (h' : Consumes k more w' w'') :
    Consumes (n + k) more w w'' := by
  refine ⟨?_, h'.ram.trans h.ram, ?_⟩
  · rw [h'.pc, h.pc, UInt16.ofNat_add, UInt16.add_assoc]
  · rw [h'.accesses, h.accesses, h.pc, addressesFrom_add]
    simp

/-- Fetching consumes one byte. -/
theorem consumes_fetch (w : Machine (Watched Ram)) : Consumes 1 [] w (w.after fetch) := by
  refine ⟨rfl, rfl, ?_⟩
  simp [addressesFrom]
  rfl

/-- Fetching several consumes that many, and they are those in memory. -/
theorem consumes_fetchBytes (n : ℕ) (w : Machine (Watched Ram)) :
    Consumes n [] w (w.after (fetchBytes n)) ∧
      w.gives (fetchBytes n) = w.memory.memory.bytesAt w.cpu.registers.pc n := by
  -- byte by byte, each fetched with PC one further
  induction n generalizing w with
  | zero => exact ⟨.refl w, rfl⟩
  | succ n ih =>
    obtain ⟨consumes, gives⟩ := ih (w.after fetch)
    have both := (consumes_fetch w).trans consumes
    rw [Nat.add_comm] at both
    refine ⟨both, ?_⟩
    rw [Ram.bytesAt, addressesFrom_succ, List.map_cons]
    exact congrArg (w.memory.memory.read w.cpu.registers.pc :: ·) gives

/-- An opcode consumes its own length. -/
theorem consumes_fetchOpcode (w : Machine (Watched Ram)) :
    let length := w.memory.memory.opcodeLengthAt w.cpu.registers.pc
    Consumes length [] w (w.after fetchOpcode) ∧
      w.gives fetchOpcode = (w.memory.memory.opcodeAt w.cpu.registers.pc,
        w.memory.memory.bytesAt w.cpu.registers.pc length) := by
  have read : w.gives fetch = w.memory.memory.read w.cpu.registers.pc := rfl
  unfold Ram.opcodeLengthAt Ram.opcodeAt
  split_ifs with hprefix
  · -- with a prefix
    have after : w.after fetchOpcode = (w.after fetch).after fetch := by
      simp [fetchOpcode, read, hprefix]
    rw [opcodeLength_wordOf hprefix, after]
    have second : (w.after fetch).gives fetch
        = w.memory.memory.read (w.cpu.registers.pc + 1) := rfl
    refine ⟨(consumes_fetch w).trans (consumes_fetch _), ?_⟩
    simp [fetchOpcode, read, second, hprefix, Ram.bytesAt, addressesFrom, List.range_succ]
  · have after : w.after fetchOpcode = w.after fetch := by simp [fetchOpcode, read, hprefix]
    rw [opcodeLength_toUInt16, after]
    refine ⟨consumes_fetch w, ?_⟩
    simp [fetchOpcode, read, hprefix, Ram.bytesAt, addressesFrom, List.range_succ]

/-- Loading a run accesses its addresses in order, and leaves the processor alone. -/
theorem accesses_loadBytes (address : Word) (n : ℕ) (w : Machine (Watched Ram)) :
    (w.after (loadBytes address n)).cpu = w.cpu ∧
      (w.after (loadBytes address n)).memory
        = { w.memory with
            accesses := w.memory.accesses ++ (addressesFrom address n).map .load } ∧
      w.gives (loadBytes address n) = w.memory.memory.bytesAt address n := by
  -- byte by byte
  induction n generalizing address w with
  | zero => simp [loadBytes, addressesFrom, Ram.bytesAt]
  | succ n ih =>
    obtain ⟨cpu, memory, gives⟩ := ih (address + 1) (w.after (load address))
    refine ⟨cpu, memory.trans ?_, ?_⟩
    · rw [addressesFrom_succ, List.map_cons, List.append_cons]
      rfl
    · rw [Ram.bytesAt, addressesFrom_succ, List.map_cons]
      exact congrArg (w.memory.memory.read address :: ·) gives

/-- An immediate operand consumes its own bytes. -/
theorem consumes_resolveImmediate (n : ℕ) (w : Machine (Watched Ram)) :
    Consumes n [] w (w.after (resolveImmediate n)) ∧
      (w.gives (resolveImmediate n)).bytes
        = w.memory.memory.bytesAt w.cpu.registers.pc n := by
  -- PC moves on first, and then the bytes are loaded in place
  obtain ⟨cpu, memory, gives⟩ := accesses_loadBytes w.cpu.registers.pc n
    (w.after (goto (w.cpu.registers.pc + UInt16.ofNat n)))
  refine ⟨⟨congrArg (·.registers.pc) cpu, congrArg (·.memory) memory, ?_⟩, gives⟩
  rw [List.append_nil]
  exact congrArg (·.accesses) memory

/-- The loads of the pointer of an indirect operand. -/
def pointerLoads (indirect : Bool) (pointer : Word) : List MemoryAccess :=
  if indirect then [.load pointer, .load (pointer + 1)] else []

/-- Forming an address consumes nothing, since no index register is PC. -/
theorem consumes_formAddress {operand : IndexedOperand}
    (h : operand.base ∈ [.x, .y, .u, .s]) (word : Word) (w : Machine (Watched Ram)) :
    Consumes 0 [] w (w.after (formAddress operand.base operand.form word)) := by
  have memory : (w.after (formAddress operand.base operand.form word)).memory = w.memory := by
    cases operand.form <;> rfl
  refine ⟨?_, congrArg (·.memory) memory, ?_⟩
  · -- none of the four index registers is PC
    rw [registers_formAddress]
    have moved := IndexedOperand.move_pc h w.cpu.registers w.cpu.registers.pc
    simpa using congrArg (·.pc) moved
  · simp [memory, addressesFrom]

/-- The pointer of an indirect operand is accessed without being consumed. -/
theorem consumes_loadWord (address : Word) (w : Machine (Watched Ram)) :
    Consumes 0 [.load address, .load (address + 1)] w (w.after (loadWord address)) := by
  refine ⟨by simp [registers_loadWord], rfl, ?_⟩
  show (w.memory.accesses ++ [.load address]) ++ [.load (address + 1)] = _
  simp [addressesFrom]

/-- An indexed operand consumes the postbyte and its offset. -/
theorem consumes_resolveIndexed {start : Word} {located : Located}
    (h : w.gives (resolveIndexed start) = .ok located) :
    let n := 1 + offsetLength (w.gives fetch)
    located.bytes = w.memory.memory.bytesAt w.cpu.registers.pc n ∧
      ∃ pointer, Consumes n (pointerLoads (isIndirect (w.gives fetch)) pointer) w
        (w.after (resolveIndexed start)) := by
  intro n
  cases decoded : IndexedOperand.decode? (w.gives fetch) with
  | none => exact nomatch (resolveIndexed_of_meaningless start decoded).1.symm.trans h
  | some operand =>
    obtain ⟨-, indirect, length⟩ := IndexedOperand.decode?_spec decoded
    have total : n = operand.form.length + 1 := by rw [length, Nat.add_comm]
    have bytes := (consumes_fetchBytes (operand.form.length + 1) w).2
    let rest := (w.after fetch).gives (fetchBytes operand.form.length)
    have formed := consumes_formAddress (IndexedOperand.base_mem decoded) (operandWord rest)
      ((w.after fetch).after (fetchBytes operand.form.length))
    -- the postbyte, the offset behind it, and the change of the index register
    have fetched := ((consumes_fetch w).trans (consumes_fetchBytes _ _).1).trans formed
    rw [Nat.add_zero, Nat.add_comm] at fetched
    rw [total, ← bytes, ← indirect]
    cases pointer : operand.indirect with
    | false =>
      simp only [resolveIndexed, gives_bind, after_bind, decoded, pointer] at h ⊢
      exact ⟨(congrArg Located.bytes (Except.ok.inj h)).symm, 0, fetched⟩
    -- the address is that of a pointer
    | true =>
      simp only [resolveIndexed, gives_bind, after_bind, decoded, pointer] at h ⊢
      exact ⟨(congrArg Located.bytes (Except.ok.inj h)).symm, _,
        fetched.trans (consumes_loadWord _ _)⟩

/-- An operand consumes the bytes that its mode is said to have. -/
theorem consumes_resolve {mode : AddressingMode} {code start : Word} {located : Located}
    (h : w.gives (resolve mode code start) = .ok located) :
    let n := w.memory.memory.operandLengthAt mode w.cpu.registers.pc
    let indirect := decide (mode = .indexed)
      && isIndirect (w.memory.memory.read w.cpu.registers.pc)
    located.bytes = w.memory.memory.bytesAt w.cpu.registers.pc n ∧
      ∃ pointer, Consumes n (pointerLoads indirect pointer) w
        (w.after (resolve mode code start)) := by
  -- an immediate operand is passed over and then read
  have immediate (n : ℕ) (h : w.gives (resolveImmediate n) = located) :
      located.bytes = w.memory.memory.bytesAt w.cpu.registers.pc n ∧
        ∃ _ : Word, Consumes n [] w (w.after (resolveImmediate n)) := by
    obtain ⟨consumes, bytes⟩ := consumes_resolveImmediate n w
    exact ⟨h ▸ bytes, 0, consumes⟩
  -- the others are fetched
  have fetched (n : ℕ) (h : w.gives (fetchBytes n) = located.bytes) :
      located.bytes = w.memory.memory.bytesAt w.cpu.registers.pc n ∧
        ∃ _ : Word, Consumes n [] w (w.after (fetchBytes n)) := by
    obtain ⟨consumes, bytes⟩ := consumes_fetchBytes n w
    exact ⟨h ▸ bytes, 0, consumes⟩
  cases mode with
  | invalid => exact nomatch h
  | inherent => exact ⟨(congrArg Located.bytes (Except.ok.inj h)).symm, 0, .refl w⟩
  | imm8 => exact immediate 1 (Except.ok.inj h)
  | imm16 => exact immediate 2 (Except.ok.inj h)
  | direct | rel8 => exact fetched 1 (congrArg Located.bytes (Except.ok.inj h))
  | extended | rel16 => exact fetched 2 (congrArg Located.bytes (Except.ok.inj h))
  | indexed =>
    exact consumes_resolveIndexed h

end Fetching

/-! ### Operations and PC -/

section Operations

variable {m : Machine Ram} {name : RegisterName} {code : ℕ}

/-- Pushing registers does not change PC. -/
theorem pc_pushFrame (stack : Stack) (list : Byte) (m : Machine Ram) :
    (m.after (pushFrame stack list)).cpu.registers.pc = m.cpu.registers.pc := by
  have pushed := cpu_after_pushBytes stack (m.cpu.registers.frame stack list).reverse m
  show (m.after (pushBytes stack _)).cpu.registers.pc = _
  rw [pushed]
  cases stack <;> rfl

theorem pc_pullByte (stack : Stack) (m : Machine Ram) :
    (m.after (pullByte stack)).cpu.registers.pc = m.cpu.registers.pc := by
  cases stack <;> rfl

theorem pc_pullWord (stack : Stack) (m : Machine Ram) :
    (m.after (pullWord stack)).cpu.registers.pc = m.cpu.registers.pc := by
  rw [after_pullWord, pc_pullByte, pc_pullByte]

theorem pc_setRegister (h : name ≠ .pc) (value : Word) (m : Machine Ram) :
    (m.after (setRegister name value)).cpu.registers.pc = m.cpu.registers.pc := by
  cases name with
  | pc => exact absurd rfl h
  | _ => rfl

/-- Pulling registers does not change PC, unless it is among them. -/
theorem pc_pullRegisters (stack : Stack) {names : List RegisterName} (h : .pc ∉ names)
    (m : Machine Ram) :
    (m.after (pullRegisters stack names)).cpu.registers.pc = m.cpu.registers.pc := by
  induction names generalizing m with
  | nil => rfl
  | cons name names ih =>
    have first : name ≠ .pc := fun hname => h (hname ▸ List.mem_cons_self)
    have rest : .pc ∉ names := fun hmem => h (List.mem_cons_of_mem name hmem)
    -- a register of one byte or two, other than PC
    have pulled : (m.after (pullRegister stack name)).cpu.registers.pc = m.cpu.registers.pc := by
      unfold pullRegister
      split <;> simp only [after_bind, after_pure, pc_setRegister first, pc_pullByte,
        pc_pullWord]
    exact (ih rest _).trans pulled

theorem pc_transferTo (h : code ≠ 0x5) (value : Word) (m : Machine Ram) :
    (m.after (transferTo code value)).cpu.registers.pc = m.cpu.registers.pc := by
  unfold transferTo
  split
  case h_1 name hname =>
    refine pc_setRegister ?_ value m
    rintro rfl
    exact h (RegisterName.ofTransferCode?_inj hname rfl)
  case h_2 => rfl

/-- An operation that does not leap leaves PC behind the instruction. -/
theorem pc_perform {operation : Operation} {address : Word}
    (h : ¬operation.Leaps (m.memory.read address) m.cpu.registers.cc) :
    (m.after (perform operation address)).cpu.registers.pc = m.cpu.registers.pc := by
  cases operation with
  | binary op acc | modifyAcc op acc => cases acc <;> rfl
  | modify op =>
    simp only [perform, after_bind, after_ite]
    split <;> rfl
  | loadWord name =>
    simp only [perform, after_bind, after_pure]
    exact pc_setRegister h _ _
  | lea name =>
    simp only [perform, after_bind, after_ite, after_pure]
    split <;> exact pc_setRegister h _ _
  -- not taken
  | branch condition =>
    have untaken : ¬condition.holds m.cpu.registers.cc = true := h
    rw [registers_branch (List.mem_pair.mpr (.inl rfl)), if_neg untaken]
  | longBranch condition =>
    have untaken : ¬condition.holds m.cpu.registers.cc = true := h
    rw [registers_branch (List.mem_pair.mpr (.inr rfl)), if_neg untaken]
  | jump | call | «return» | rti | swi => exact absurd trivial h
  -- what is left can reach PC only through a register that the operand byte chooses
  | push stack =>
    simp only [perform, after_bind]
    exact pc_pushFrame stack _ _
  | pull stack =>
    simp only [perform, after_bind]
    exact pc_pullRegisters stack (mt (Stack.pc_mem_selected stack _).mp h) _
  | transfer =>
    simp only [perform, after_bind, after_pure]
    exact pc_transferTo h _ _
  | exchange =>
    obtain ⟨low, high⟩ := not_or.mp h
    simp only [perform, after_bind, after_pure]
    exact (pc_transferTo low _ _).trans (pc_transferTo high _ _)
  | cwai =>
    simp only [perform, after_bind, after_pure, pushEntireState, after_modifyCpu, pc_pushFrame]
    rfl
  | addD | subD | mul | sex | daa | abx | orCC | andCC | compareWord => rfl
  | store | storeWord | nop | sync => rfl

end Operations

/-! ### Instructions -/

section Instructions

variable {μ : Type} [Memory μ] {m : Machine μ} {row : Instruction} {operand : Located}

/-- No part of an instruction changes whether it leaves a message. -/
theorem tracing_performed (m : Machine μ) (row : Instruction) (address : Word) :
    ((m.located row).after (perform row.operation address)).cpu.tracing = m.cpu.tracing := by
  have frame (wanted : Bool) : Frame (Kept (μ := μ) Cpu.tracing wanted) :=
    frame_kept (fun _ signal => by cases signal <;> rfl) (fun _ plain => plain.tracing) wanted
  have arms (wanted : Bool) : Arms (Kept (μ := μ) Cpu.tracing wanted) :=
    fun _ => agree_kept fun _ => rfl
  -- nothing that an instruction does turns tracing on or off
  have opened := (frame _).fetchOpcode.kept m
  have located := ((frame _).resolve row.mode row.code m.cpu.registers.pc).kept m.opened
  have performed : ((m.located row).after (perform row.operation address)).cpu.tracing
      = (m.located row).cpu.tracing :=
    ((frame _).perform (fun _ => arms _) address).kept (m.located row)
  exact performed.trans (located.trans opened)

/-- With tracing on, the last message tells of the instruction, with the bytes that were fetched. -/
theorem journal_executeNext (h : m.Locates row operand) (tracing : m.cpu.tracing = true) :
    (m.after executeNext).cpu.journal.back?
      = some (.executed m.cpu.registers.pc row.mnemonic
          ((m.gives fetchOpcode).2 ++ operand.bytes)) := by
  have traced := tracing_performed m row operand.address
  rw [tracing] at traced
  simp [h.after, noteExecuted, traced, Cpu.note]

end Instructions

/-! ### The bytes of an instruction -/

section Spans

variable {m : Machine Ram} {row : Instruction} {operand : Located}

/-- The instruction at PC has this row and this operand, and its length is `n`. -/
structure Spans (m : Machine Ram) (row : Instruction) (operand : Located) (n : ℕ) : Prop where
  /-- Its bytes are those that lie in memory. -/
  bytes : (m.gives fetchOpcode).2 ++ operand.bytes = m.memory.bytesAt m.cpu.registers.pc n
  /-- No others are fetched, except for the pointer of an indirect operand. -/
  accesses : ∃ pointer, (m.watched.located row).memory.accesses
    = (addressesFrom m.cpu.registers.pc n).map .load
      ++ pointerLoads (row.mode = .indexed && isIndirect (m.memory.postbyteAt m.cpu.registers.pc))
        pointer
  traced : m.cpu.tracing = true → (m.after executeNext).cpu.journal.back?
    = some (.executed m.cpu.registers.pc row.mnemonic (m.memory.bytesAt m.cpu.registers.pc n))
  /-- PC is then behind the instruction. -/
  next : ¬row.Leaps (m.memory.postbyteAt m.cpu.registers.pc) m.cpu.registers.cc →
    (m.after executeNext).cpu.registers.pc = m.cpu.registers.pc + UInt16.ofNat n

/-- An invalid mode locates nothing. -/
theorem Locates.mode_ne_invalid (h : m.Locates row operand) : row.mode ≠ .invalid := by
  intro invalid
  have resolved := h.resolved
  rw [invalid] at resolved
  exact nomatch resolved

/-- The opcode and the operand make up the length. -/
theorem Locates.lengthAt_eq (h : m.Locates row operand) :
    let start := m.cpu.registers.pc
    let opcode := m.memory.opcodeLengthAt start
    m.memory.lengthAt start row
      = opcode + m.memory.operandLengthAt row.mode (start + UInt16.ofNat opcode) := by
  have code := (OpcodeMap.code_of_lookup? h.lookup).2
  rw [(fetchOpcode_eq m).1] at code
  -- the size in the table counts the postbyte, and the rest of the length is what it adds
  have size := (Instruction.rows_size row h.row_mem).resolve_left h.mode_ne_invalid
  show row.size + _ = _
  rw [size, code, Nat.add_assoc]
  rfl

/-- An instruction consumes the bytes of its length. -/
theorem Locates.consumes (h : m.Locates row operand) :
    let length := m.memory.lengthAt m.cpu.registers.pc row
    (m.gives fetchOpcode).2 ++ operand.bytes = m.memory.bytesAt m.cpu.registers.pc length ∧
      ∃ pointer, Consumes length
        (pointerLoads (row.mode = .indexed && isIndirect (m.memory.postbyteAt m.cpu.registers.pc))
          pointer) m.watched (m.watched.located row) := by
  dsimp only
  have watched := locates_watched.mpr h
  obtain ⟨opcode, gives⟩ := consumes_fetchOpcode m.watched
  have opened : Consumes _ [] m.watched m.watched.opened := ⟨opcode.pc, opcode.ram, opcode.accesses⟩
  -- the operand begins where the opcode ends
  obtain ⟨bytes, pointer, consumes⟩ := consumes_resolve watched.resolved
  rw [opened.pc, opened.ram] at bytes consumes
  rw [h.lengthAt_eq, Ram.bytesAt_add, fetchOpcode_watched, gives, bytes]
  exact ⟨rfl, pointer, opened.trans consumes⟩

/-- The operand byte that chooses registers is the one after the opcode. -/
theorem Locates.read_operand (h : m.Locates row operand) (moves : row.operation.moves = true) :
    (m.located row).memory.read operand.address = m.memory.postbyteAt m.cpu.registers.pc := by
  have mode := (Instruction.rows_moving row h.row_mem).1 moves
  have resolved := h.resolved
  rw [mode] at resolved
  obtain rfl := Except.ok.inj resolved
  rw [located, mode, opened_eq]
  rfl

/-- An instruction whose operand is located spans its length. -/
theorem Locates.spans (h : m.Locates row operand) :
    m.Spans row operand (m.memory.lengthAt m.cpu.registers.pc row) := by
  obtain ⟨bytes, pointer, consumes⟩ := h.consumes
  have located : (m.located row).cpu.registers.pc = (m.watched.located row).cpu.registers.pc :=
    congrArg (·.registers.pc) (relates_located m row).2.1
  refine ⟨bytes, ⟨pointer, consumes.accesses⟩, fun tracing => ?_, fun stays => ?_⟩
  · rw [journal_executeNext h tracing, bytes]
  · -- the codes that decide on a jump are those from before the operand was found
    have codes : (m.located row).cpu.registers.cc = m.cpu.registers.cc :=
      (still_resolve row.mode row.code m.cpu.registers.pc m.opened).trans (still_fetchOpcode m)
    have leaves : ¬row.operation.Leaps ((m.located row).memory.read operand.address)
        (m.located row).cpu.registers.cc := by
      intro leaps
      rw [codes] at leaps
      exact stays (Instruction.leaps_of_operation h.row_mem (leaps.of_moves h.read_operand))
    rw [h.registers, pc_perform leaves, located, consumes.pc]
    rfl

/-- **How long an instruction is.** An instruction that does not fail has a row in the opcode map
and is as long as its row says, and longer by the bytes of an offset if it is indexed. These are the
bytes that are fetched, from PC upward and around the end of memory, and the message about the
instruction has them as they lay in memory. PC is behind them in the end, unless the instruction is
one that leaps. -/
theorem instruction_spans {used : ℕ} (h : m.gives executeNext = .ok used) :
    ∃ row operand, OpcodeMap.lookup? (m.memory.opcodeAt m.cpu.registers.pc) = some row ∧
      m.Locates row operand ∧ m.Spans row operand (m.memory.lengthAt m.cpu.registers.pc row) := by
  obtain ⟨row, operand, locates⟩ := exists_locates h
  have lookup := locates.lookup
  rw [(fetchOpcode_eq m).1] at lookup
  exact ⟨row, operand, lookup, locates, locates.spans⟩

/-- A machine about to load D, with the opcode in the last byte of memory and the value in the first
two. -/
def aroundTheEnd : Machine Ram :=
  let m := ofMemory { contents := #[0x12, 0x34] }
  { m with cpu := { m.cpu with
      registers := { m.cpu.registers with pc := 0xFFFF }, tracing := true } }

/-- The value is taken from the first two bytes of memory, and PC goes on behind them. -/
theorem instruction_spans_around :
    aroundTheEnd.gives executeNext = .ok 3 ∧
      (aroundTheEnd.after executeNext).cpu.registers.pc = 2 ∧
      (aroundTheEnd.after executeNext).cpu.journal.back?
        = some (.executed 0xFFFF "LDD" [0xCC, 0x12, 0x34]) := by
  have success : aroundTheEnd.gives executeNext = .ok 3 := rfl
  obtain ⟨row, operand, lookup, -, spans⟩ := instruction_spans success
  have known : OpcodeMap.lookup? (aroundTheEnd.memory.opcodeAt 0xFFFF)
      = some (.row 0xCC "LDD" .imm16 3 (.loadWord .d)) := by decide +kernel
  obtain rfl := Option.some.inj (lookup.symm.trans known)
  exact ⟨success, spans.next (by decide), spans.traced rfl⟩

end Spans

end Machine

end Machine6809
