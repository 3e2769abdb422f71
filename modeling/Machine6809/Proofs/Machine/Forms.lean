import Machine6809.Proofs.Machine.Codes
import Machine6809.Proofs.Machine.Comparing
import Machine6809.Proofs.Machine.Mirroring
import Machine6809.Proofs.Machine.Stores
import Mathlib.Data.Nat.Notation

/-!
# The forms of an operation agree

An operation of an accumulator with a byte exists for A and for B. The two do the same with the
accumulators exchanged, which is shown in `Machine6809.Proofs.Machine.Mirroring` by running them
side by side.

An operation on one byte exists for A, for B and for memory. Here all three hand the byte to the
same function on bytes and codes, so it is enough to see that nothing else happens: which registers
change (`Machine.registers_modify`), what is stored, and that the rest of the processor stays as it
is (`Machine.RestKept`).
-/

namespace Machine6809

namespace Machine

variable {μ ν : Type}

/-! ### What stays as it is -/

/-- Apart from the registers and from what is posted meanwhile the processor is the same. Messages
do not count. -/
def RestKept (m m' : Machine μ) : Prop :=
  ∃ registers file, m'.cpu.silent = { m.cpu.silent with registers, file }

/-- What is kept by two actions is kept by both together. -/
theorem RestKept.trans {m₁ m₂ m₃ : Machine μ} (h : RestKept m₁ m₂) (h' : RestKept m₂ m₃) :
    RestKept m₁ m₃ := by
  obtain ⟨_, _, between⟩ := h
  obtain ⟨registers, file, done⟩ := h'
  exact ⟨registers, file, by rw [done, between]⟩

/-- Signals change the register file, and otherwise leave messages. -/
theorem exists_file_absorb (signals : List Signal) (cpu : Cpu) :
    ∃ file, (signals.foldl Cpu.absorb cpu).silent = { cpu.silent with file } := by
  rw [silent_foldl_absorb]
  generalize writesOf signals = writes
  generalize cpu.silent = cpu
  induction writes generalizing cpu with
  | nil => exact ⟨cpu.file, rfl⟩
  | cons write writes ih => exact ih (cpu.post write)

theorem restKept_modifyRegisters (f : Registers → Registers) :
    Respects RestKept (modifyRegisters f : Exec μ Unit) :=
  fun m => ⟨f m.cpu.registers, m.cpu.file, rfl⟩

theorem restKept_noteExecuted (address : Word) (mnemonic : String) (bytes : List Byte) :
    Respects RestKept (noteExecuted address mnemonic bytes : Exec μ Unit) := by
  intro m
  refine ⟨m.cpu.registers, m.cpu.file, ?_⟩
  simp only [noteExecuted, after_modifyCpu]
  split_ifs <;> rfl

variable [Memory μ] [Memory ν]

theorem restKept_store (address : Word) (value : Byte) :
    Respects RestKept (store address value : Exec μ Unit) := by
  intro m
  obtain ⟨file, absorbed⟩ := exists_file_absorb (Memory.store m.memory address value).signals m.cpu
  exact ⟨m.cpu.registers, file, absorbed⟩

theorem fetching_restKept : Fetching (RestKept (μ := μ)) where
  refl m := ⟨m.cpu.registers, m.cpu.file, rfl⟩
  trans _ _ _ := RestKept.trans
  load address m := by
    obtain ⟨file, absorbed⟩ := exists_file_absorb (Memory.load m.memory address).signals m.cpu
    exact ⟨m.cpu.registers, file, absorbed⟩
  goto _ := restKept_modifyRegisters _

theorem restKept_formAddress (base : RegisterName) (form : IndexedForm) (word : Word) :
    Respects RestKept (formAddress base form word : Exec μ Word) := by
  refine fetching_restKept.bind fetching_restKept.registers fun r => ?_
  cases form with
  | postIncrement step | preDecrement step =>
    exact fetching_restKept.bind (restKept_modifyRegisters _) fun _ => fetching_restKept.pure _
  | _ => exact fetching_restKept.pure _

theorem restKept_modify (op : UnaryOp) (address : Word) :
    Respects RestKept (perform (.modify op) address : Exec μ ℕ) := by
  have codes (cc : Flags) : Respects RestKept (setFlags cc : Exec μ Unit) :=
    restKept_modifyRegisters fun r => { r with cc }
  have done (cc : Flags) : Respects RestKept (setFlags cc >>= fun _ => pure 0 : Exec μ ℕ) :=
    fetching_restKept.bind (codes cc) fun _ => fetching_restKept.pure 0
  refine fetching_restKept.bind (fetching_restKept.load address) fun _ =>
    fetching_restKept.bind fetching_restKept.registers fun _ => .ite (done _) ?_
  exact fetching_restKept.bind (restKept_store address _) fun _ => done _

/-- An instruction is fetched, located and noted without more than that, and a visit. -/
theorem Locates.restKept {m : Machine μ} {row : Instruction} {operand : Located}
    (h : m.Locates row operand)
    (perform : Respects RestKept (perform row.operation operand.address : Exec μ ℕ)) :
    RestKept { m with cpu := m.cpu.visit m.cpu.registers.pc } (m.after executeNext) := by
  obtain ⟨registers, file, fetched⟩ := fetching_restKept.fetchOpcode m
  have opened : RestKept { m with cpu := m.cpu.visit m.cpu.registers.pc } m.opened :=
    ⟨registers, file, congrArg (Cpu.visit · m.cpu.registers.pc) fetched⟩
  have located : RestKept m.opened (m.located row) :=
    fetching_restKept.resolve row.code m.cpu.registers.pc
      (fun _ _ _ word _ => restKept_formAddress _ _ word) m.opened
  rw [h.after]
  exact ((opened.trans located).trans (perform _)).trans (restKept_noteExecuted _ _ _ _)

/-! ### Operations on one byte -/

section Unary

variable {m : Machine μ} {row : Instruction} {operand : Located}

/-- Of the registers it changes the codes only. -/
theorem registers_modify (op : UnaryOp) (address : Word) (m : Machine μ) :
    (m.after (perform (.modify op) address)).cpu.registers
      = { m.cpu.registers with
          cc := (op.apply (m.gives (load address)) m.cpu.registers.cc).2 } := by
  have loaded := registers_load address m
  simp only [perform, after_bind, gives_registers, after_registers, loaded, after_ite]
  -- the byte is stored or not, and the codes are set in either case
  split_ifs
  · simp [setFlags, Cpu.setFlags, loaded]
  · simp [setFlags, Cpu.setFlags, loaded, registers_store]

theorem gives_modify (op : UnaryOp) (address : Word) (m : Machine μ) :
    m.gives (perform (.modify op) address) = 0 := by
  simp only [perform, gives_bind, gives_ite, gives_pure, ite_self]

/-- Locating an operand leaves the codes alone. -/
theorem codes_located (m : Machine μ) (row : Instruction) :
    (m.located row).cpu.registers.cc = m.cpu.registers.cc :=
  (still_resolve row.mode row.code m.cpu.registers.pc m.opened).trans (still_fetchOpcode m)

/-- The form of `op` for an accumulator: the byte and the codes are what the operation makes of
them, and PC is past the opcode. Memory is accessed for the opcode only. -/
structure ChangesAccumulator (op : UnaryOp) (acc : Accumulator) (m m' : Machine μ) : Prop where
  registers : let r := m.cpu.registers
    let result := op.apply (acc.get r) r.cc
    m'.cpu.registers = acc.set result.1 { r with pc := r.pc + 1, cc := result.2 }
  rest : RestKept { m with cpu := m.cpu.visit m.cpu.registers.pc } m'
  accesses : (m.watched.after executeNext).memory.accesses = [.load m.cpu.registers.pc]

/-- The form of `op` for memory: the byte and the codes are what the operation makes of them. A test
does not change the byte and stores nothing. PC is past the instruction, and an indexed operand may
have moved its register. -/
structure ChangesOperand (op : UnaryOp) (row : Instruction) (operand : Located)
    (m m' : Machine μ) : Prop where
  registers : let value := (m.located row).gives (load operand.address)
    ∃ pc, m'.cpu.registers = { m.indexed row with pc, cc := (op.apply value m.cpu.registers.cc).2 }
  rest : RestKept { m with cpu := m.cpu.visit m.cpu.registers.pc } m'
  stores : let value := (m.located row).gives (load operand.address)
    let result := (op.apply value m.cpu.registers.cc).1
    if op = .tst then m.instructionStores = [] ∧ result = value
    else m.instructionStores = [⟨operand.address, result⟩]

/-- An operation on an accumulator costs two cycles and changes the accumulator and the codes. -/
theorem executeNext_modifyAcc {op : UnaryOp} {acc : Accumulator} {mnemonic : String} {code : Word}
    (lookup : OpcodeMap.lookup? (m.gives fetchOpcode).1
      = some (.inherent code mnemonic 2 (.modifyAcc op acc))) (short : code < 0x100) :
    m.gives executeNext = .ok 2 ∧ ChangesAccumulator op acc m (m.after executeNext) := by
  let row := Instruction.inherent code mnemonic 2 (.modifyAcc op acc)
  have locates : m.Locates row { address := 0, bytes := [], cycles := 0 } := ⟨lookup, rfl⟩
  have fetched : m.opened.cpu.registers
      = { m.cpu.registers with pc := m.cpu.registers.pc + 1 } := by
    show (m.after fetchOpcode).cpu.registers = _
    rw [after_fetchOpcode_of_short lookup short, registers_fetch]
  refine ⟨locates.cost, ?registers, ?rest, ?accesses⟩
  case registers =>
    -- nothing is located, so that the operation works on what the fetch has left
    have performed := locates.registers
    rw [show m.located row = m.opened from rfl] at performed
    generalize m.opened = n at fetched performed
    show _ = acc.set (op.apply (acc.get m.cpu.registers) m.cpu.registers.cc).1 _
    rw [performed]
    show acc.set (op.apply (acc.get n.cpu.registers) n.cpu.registers.cc).1
      { n.cpu.registers with cc := (op.apply (acc.get n.cpu.registers) n.cpu.registers.cc).2 } = _
    rw [fetched]
    cases acc <;> rfl
  case rest =>
    refine locates.restKept ?_
    exact fetching_restKept.bind (restKept_modifyRegisters _) fun _ => fetching_restKept.pure 0
  case accesses =>
    -- watching changes nothing, so the loads are counted on the watched machine
    rw [fetchOpcode_watched] at lookup
    rw [(locates_watched.mpr locates).after]
    show (m.watched.after fetchOpcode).memory.accesses = _
    rw [after_fetchOpcode_of_short lookup short]
    rfl

/-- The same operation on memory changes the byte and the codes. -/
theorem executeNext_modify {op : UnaryOp} (listed : (row.mnemonic, op) ∈ Instruction.unaryNames)
    (operation : row.operation = .modify op) (h : m.Locates row operand)
    (meaningful : row.mode = .indexed → IndexedOperand.decode? (m.opened.gives fetch) ≠ none) :
    m.gives executeNext = .ok (row.cycles + operand.cycles) ∧
      ChangesOperand op row operand m (m.after executeNext) := by
  have cost := h.cost
  have registers := h.registers
  rw [operation] at cost registers
  rw [gives_modify] at cost
  rw [registers_modify, codes_located] at registers
  obtain ⟨pc, located⟩ := registers_located_move meaningful
  refine ⟨cost, ?registers, ?rest, ?stores⟩
  case registers =>
    refine ⟨pc, ?_⟩
    rw [registers, located]
  case rest =>
    exact h.restKept (operation ▸ restKept_modify op operand.address)
  case stores =>
    -- the stores are listed for the row and the operand that have been found
    obtain ⟨row', operand', lookup, resolved, -, stored⟩ := storesListed_executeNext cost
    obtain rfl := Option.some.inj (h.lookup.symm.trans lookup)
    obtain rfl := Except.ok.inj (h.resolved.symm.trans resolved)
    -- TST is the one that stores nothing
    obtain ⟨modifies, writes⟩ | ⟨test, rfl⟩ := Instruction.modifies_or_tests listed
    · have stores := stored.result op modifies
      rw [codes_located] at stores
      simpa only [if_neg writes] using stores
    · refine ⟨stored.nothing ?_, rfl⟩
      rw [test]
      decide

end Unary

/-! ### The forms -/

section Agreement

/-- The indexed operand of the instruction at PC takes its offset from an accumulator. -/
def OffsetByAccumulator (m : Machine μ) : Prop :=
  ∃ operand name, IndexedOperand.decode? (m.opened.gives fetch) = some operand ∧
    operand.form = .accumulatorOffset name

/-- **The forms of an operation agree.** Each operation of an accumulator with a byte has its four
forms for A and for B. If a machine is about to execute a form for A, and its mirror image, with A
and B exchanged, the form for B in the same mode, then the one gives what the other gives and the
mirror image is kept: all other registers, the codes, memory off the opcode and the cycles are the
same. It is assumed that no data is accessed at the opcode, where the two memories differ, and that
no offset is taken from an accumulator.

Each operation on one byte has its forms for A and B and three for memory. They turn the same byte
and codes into the same byte and codes, and change nothing else but PC and an automatic index
register. -/
theorem forms_agree :
    (∀ name ∈ Instruction.accumulatorNames,
      (∀ acc ∈ [Accumulator.a, .b],
        Instruction.HasForms OpcodeMap.accumulatorRows (name ++ acc.letter)
          [if name = "ST" then .invalid else .imm8, .direct, .indexed, .extended]) ∧
      ∀ (m : Machine μ) (n : Machine ν) (S : μ → ν → Prop) (row row' : Instruction),
        AnsweringOff m.cpu.registers.pc S → Mirrors S m n →
        OpcodeMap.lookup? (m.gives fetchOpcode).1 = some row →
        OpcodeMap.lookup? (n.gives fetchOpcode).1 = some row' →
        row.mnemonic = name ++ "A" → row'.mnemonic = name ++ "B" → row'.mode = row.mode →
        (row.mode = .indexed → ¬m.OffsetByAccumulator) →
        ¬Touched m.cpu.registers.pc (m.watched.after executeNext) →
        n.gives executeNext = twinned (m.gives executeNext) ∧
          Mirrors S (m.after executeNext) (n.after executeNext)) ∧
      ∀ name op, (name, op) ∈ Instruction.unaryNames →
        (∀ acc ∈ [Accumulator.a, .b],
          Instruction.HasForms OpcodeMap.unaryRows (name ++ acc.letter) [.inherent]) ∧
        Instruction.HasForms OpcodeMap.unaryRows name [.direct, .indexed, .extended] ∧
        ∀ (m : Machine μ) (row : Instruction),
          OpcodeMap.lookup? (m.gives fetchOpcode).1 = some row →
          (∀ acc : Accumulator, row.mnemonic = name ++ acc.letter →
            m.gives executeNext = .ok 2 ∧ ChangesAccumulator op acc m (m.after executeNext)) ∧
          (row.mnemonic = name →
            (row.mode = .indexed → IndexedOperand.decode? (m.opened.gives fetch) ≠ none) →
            ∃ operand, m.Locates row operand ∧
              m.gives executeNext = .ok (row.cycles + operand.cycles) ∧
              ChangesOperand op row operand m (m.after executeNext)) := by
  constructor
  · refine fun name listed => ⟨Instruction.hasForms_joining name listed, ?_⟩
    intro m n S row row' answering mirrors lookup lookup' mnemonic mnemonic' mode offset once
    have hrow := List.mem_of_find?_eq_some lookup
    have hrow' := List.mem_of_find?_eq_some lookup'
    -- the row for B is the one for A with the other accumulator
    obtain ⟨short, joins, twins⟩ := Instruction.rows_twins row hrow name listed mnemonic
    obtain ⟨rfl, short'⟩ := twins row' hrow' mnemonic' mode
    refine mirrors_executeNext answering mirrors lookup lookup' short short' joins ?_ once
    exact fun indexed operand decoded name form => offset indexed ⟨operand, name, decoded, form⟩
  · -- the form is known by the mnemonic, and the operation by the form
    intro name op listed
    obtain ⟨memoryForms, accumulatorForms⟩ := Instruction.hasForms_unary _ listed
    refine ⟨accumulatorForms, memoryForms, fun m row lookup => ?_⟩
    have hrow := List.mem_of_find?_eq_some lookup
    obtain ⟨accumulator, memory⟩ := Instruction.rows_unary row hrow _ listed
    refine ⟨fun acc mnemonic => ?_, fun mnemonic meaningful => ?_⟩
    · obtain ⟨form, short⟩ := accumulator acc (by cases acc <;> simp) mnemonic
      exact executeNext_modifyAcc (form ▸ lookup) short
    · obtain ⟨operation, modes⟩ := memory mnemonic
      have valid : row.mode ≠ .invalid := fun invalid => by simp [invalid] at modes
      obtain ⟨operand, resolved⟩ := resolve_located valid meaningful row.code m.cpu.registers.pc
      have locates : m.Locates row operand := ⟨lookup, resolved⟩
      exact ⟨operand, locates, executeNext_modify (mnemonic ▸ listed) operation locates meaningful⟩

/-- Plain memories of one size that differ in one byte at most. -/
theorem answeringOff_ram (start : Word) : AnsweringOff start fun M N : Ram =>
    M.contents.size = N.contents.size ∧ ∀ address, address ≠ start →
      M.read address = N.read address where
  load _ _ address h := ⟨h.2 address, rfl, h⟩
  store M N address value h _ := by
    obtain ⟨size, same⟩ := h
    refine ⟨rfl, ?_, fun other off => ?_⟩
    · exact (Ram.size_write M address value).trans
        (size.trans (Ram.size_write N address value).symm)
    · -- the address of the store, and any other
      by_cases here : other = address
      · subst here
        simp [Memory.store, Ram.read, Ram.write, Array.getD, size]
      · exact (Ram.read_write_of_ne (Ne.symm here) _ _).trans
          ((same other off).trans (Ram.read_write_of_ne (Ne.symm here) _ _).symm)

/-- A machine about to execute an instruction `,X+` with this opcode, its postbyte being the operand
that X points at. -/
def usingPostbyte (code a b : Byte) : Machine Ram :=
  { cpu := { Cpu.initial with registers := { Registers.zero with a, b, x := 1 } }
    memory := { contents := #[code, 0x80] } }

/-- ADDA and ADDB add the postbyte to 5. In memory INC makes `$81` of it, and INCA makes 6 of 5. -/
theorem forms_agree_postbyte :
    ((usingPostbyte 0xEB 7 5).gives executeNext = .ok 6 ∧
        ((usingPostbyte 0xEB 7 5).after executeNext).cpu.registers
          = ((usingPostbyte 0xAB 5 7).after executeNext).cpu.registers.exchanged ∧
        ((usingPostbyte 0xAB 5 7).after executeNext).cpu.registers.a = 0x85) ∧
      (usingPostbyte 0x6C 5 7).instructionStores = [⟨1, 0x81⟩] ∧
      ((usingPostbyte 0x4C 5 7).after executeNext).cpu.registers
        = { Registers.zero with a := 6, b := 7, x := 1, pc := 1 } := by
  refine ⟨?twins, ?memory, ?accumulator⟩
  -- ADDA and ADDB with the same postbyte, and the values exchanged
  case twins =>
    have reads : ∀ address : Word, address ≠ 0 →
        (usingPostbyte 0xAB 5 7).memory.read address
          = (usingPostbyte 0xEB 7 5).memory.read address := by
      intro address off
      have positive : address.toNat ≠ 0 := fun zero => off (UInt16.toNat_inj.mp zero)
      obtain ⟨k, hk⟩ := Nat.exists_eq_succ_of_ne_zero positive
      rw [Ram.read, Ram.read, hk]
      rfl
    have postbyte : IndexedOperand.decode? ((usingPostbyte 0xAB 5 7).opened.gives fetch)
        = some ⟨.x, .postIncrement 1, false⟩ := rfl
    -- X is not counted from an accumulator
    have offset : ¬(usingPostbyte 0xAB 5 7).OffsetByAccumulator := by
      rintro ⟨operand, name, decoded, form⟩
      obtain rfl := Option.some.inj (postbyte.symm.trans decoded)
      cases form
    -- nothing touches the opcode again
    have once : ¬Touched 0 ((usingPostbyte 0xAB 5 7).watched.after executeNext) := by
      have accesses : ((usingPostbyte 0xAB 5 7).watched.after executeNext).memory.accesses
          = [.load 0, .load 1, .load 1] := rfl
      simp [Touched, accesses, MemoryAccess.address]
    obtain ⟨-, agree⟩ := (forms_agree (μ := Ram) (ν := Ram)).1 "ADD" (by decide)
    obtain ⟨gives, mirrors⟩ := agree (usingPostbyte 0xAB 5 7) (usingPostbyte 0xEB 7 5) _
      (.row 0xAB "ADDA" .indexed 4 (.binary .add .a))
      (.row 0xEB "ADDB" .indexed 4 (.binary .add .b))
      (answeringOff_ram 0) ⟨rfl, rfl, reads⟩ (by decide +kernel) (by decide +kernel) rfl rfl rfl
      (fun _ => offset) once
    exact ⟨gives, mirrors.registers, rfl⟩
  -- INC of a byte in memory
  case memory =>
    obtain ⟨-, -, agree⟩ := (forms_agree (μ := Ram) (ν := Ram)).2 "INC" .inc (by decide)
    obtain ⟨-, memory⟩ := agree (usingPostbyte 0x6C 5 7) (.row 0x6C "INC" .indexed 6 (.modify .inc))
      (by decide +kernel)
    obtain ⟨operand, locates, -, changes⟩ := memory rfl fun _ => by decide
    obtain rfl := Except.ok.inj locates.resolved
    exact changes.stores
  -- INCA
  case accumulator =>
    obtain ⟨-, -, agree⟩ := (forms_agree (μ := Ram) (ν := Ram)).2 "INC" .inc (by decide)
    obtain ⟨accumulator, -⟩ := agree (usingPostbyte 0x4C 5 7)
      (.inherent 0x4C "INCA" 2 (.modifyAcc .inc .a)) (by decide +kernel)
    exact (accumulator .a rfl).2.registers

end Agreement

end Machine

end Machine6809
