import Machine6809.Proofs.Cpu.Codes
import Machine6809.Proofs.Cpu.Comparison
import Machine6809.Proofs.Machine.Locating
import Mathlib.Data.Nat.Notation

/-!
# Comparing and branching

A comparison leaves the codes of a subtraction and changes nothing else, apart from PC and the
register that an automatic form of an indexed operand moves. A branch goes by the codes alone. So
a branch that finds the codes of a comparison decides how the operands compare.

The operand is located first. `Machine.registers_located_move` says what that does to the registers,
and the comparison reads its register after it, which matters where the index register is the one
that is compared.
-/

namespace Machine6809

/-- The registers after an indexed operand: the automatic forms move the register they count
from. -/
def IndexedOperand.move (operand : IndexedOperand) (r : Registers) : Registers :=
  match operand.form with
  | .postIncrement step => r.assign operand.base (r.read operand.base + step)
  | .preDecrement step => r.assign operand.base (r.read operand.base - step)
  | _ => r

/-- Moving an index register has nothing to do with PC. -/
theorem IndexedOperand.move_pc {operand : IndexedOperand} (h : operand.base ∈ [.x, .y, .u, .s])
    (r : Registers) (pc : Word) : operand.move { r with pc } = { operand.move r with pc } := by
  obtain ⟨base, form, indirect⟩ := operand
  have four : base = .x ∨ base = .y ∨ base = .u ∨ base = .s := by simpa using h
  obtain rfl | rfl | rfl | rfl := four <;> cases form <;> rfl

namespace Machine

variable {μ : Type} [Memory μ] {m : Machine μ} {row : Instruction}

/-! ### Distances -/

/-- A relative operand is its distance from the next instruction. -/
theorem resolve_relative {mode : AddressingMode} (h : mode ∈ [.rel8, .rel16]) (code start : Word)
    (m : Machine μ) :
    let fetched := m.after (fetchBytes mode.operandLength)
    let bytes := m.gives (fetchBytes mode.operandLength)
    m.after (resolve mode code start) = fetched ∧
      m.gives (resolve mode code start)
        = .ok { address := fetched.cpu.registers.pc + operandWord bytes, bytes, cycles := 0 } := by
  have two : mode = .rel8 ∨ mode = .rel16 := by simpa using h
  obtain rfl | rfl := two <;> exact ⟨rfl, rfl⟩

/-- An instruction whose operand is a distance moves PC past itself, and the distance counts from
there. -/
theorem located_relative (lookup : OpcodeMap.lookup? (m.gives fetchOpcode).1 = some row)
    (mode : row.mode ∈ [.rel8, .rel16])
    (size : row.size = opcodeLength row.code + row.mode.operandLength) :
    let next := m.cpu.registers.pc + UInt16.ofNat row.size
    (m.located row).cpu.registers = { m.cpu.registers with pc := next } ∧
      ∃ operand, m.Locates row operand ∧ operand.address
        = next + operandWord (m.opened.gives (fetchBytes row.mode.operandLength)) := by
  intro next
  have code : row.code = (m.gives fetchOpcode).1 := by simpa using List.find?_some lookup
  have opened : m.opened.cpu.registers
      = { m.cpu.registers with pc := m.cpu.registers.pc + UInt16.ofNat (opcodeLength row.code) } :=
    code ▸ registers_fetchOpcode m
  -- opcode and distance are all that there is of the instruction
  have past : (m.opened.after (fetchBytes row.mode.operandLength)).cpu.registers
      = { m.cpu.registers with pc := next } := by
    rw [registers_fetchBytes, opened]
    simp only [next, size, UInt16.ofNat_add, UInt16.add_assoc]
  obtain ⟨after, gives⟩ := resolve_relative mode row.code m.cpu.registers.pc m.opened
  refine ⟨?_, _, ⟨lookup, gives⟩, ?_⟩
  · rw [located, after, past]
  · simp only [past]

/-! ### Branches -/

/-- Every branch on the condition, be it short or long, is taken from here just when `p` holds. Its
distance counts from the next instruction, which follows if it is not taken, and PC is the only
register that changes. -/
def BranchesIf (m : Machine μ) (condition : Condition) (p : Prop) : Prop :=
  ∀ row, OpcodeMap.lookup? (m.gives fetchOpcode).1 = some row →
    (row.mnemonic, condition) ∈ Instruction.orderBranches →
      let next := m.cpu.registers.pc + UInt16.ofNat row.size
      let distance := operandWord (m.opened.gives (fetchBytes row.mode.operandLength))
      (∃ used, m.gives executeNext = .ok used) ∧
        (p → (m.after executeNext).cpu.registers
          = { m.cpu.registers with pc := next + distance }) ∧
        (¬p → (m.after executeNext).cpu.registers = { m.cpu.registers with pc := next })

/-- A branch that is taken changes PC, and any other changes nothing. -/
theorem registers_branch {operation : Operation} {condition : Condition}
    (h : operation ∈ [.branch condition, .longBranch condition]) (address : Word)
    (m : Machine μ) :
    (m.after (perform operation address)).cpu.registers
      = if condition.holds m.cpu.registers.cc then { m.cpu.registers with pc := address }
        else m.cpu.registers := by
  have two : operation = .branch condition ∨ operation = .longBranch condition := by simpa using h
  have branch : (m.after (branchTo condition address)).cpu.registers
      = if condition.holds m.cpu.registers.cc then { m.cpu.registers with pc := address }
        else m.cpu.registers := by
    simp only [branchTo, after_bind, gives_registers, after_registers, after_ite]
    split <;> rfl
  obtain rfl | rfl := two <;> exact branch

/-- A branch tells what its condition says. -/
theorem branchesIf_iff {condition : Condition} {p : Prop}
    (h : condition.holds m.cpu.registers.cc = true ↔ p) : m.BranchesIf condition p := by
  intro row lookup branch next distance
  obtain ⟨taken, mode, size⟩ := Instruction.rows_ordering row (List.mem_of_find?_eq_some lookup)
    _ branch rfl
  -- the distance counts from the address behind the bytes that were fetched
  obtain ⟨past, operand, locates, address⟩ := located_relative lookup mode size
  have after := locates.registers
  rw [registers_branch taken, past, address] at after
  refine ⟨locates.gives, fun hp => ?_, fun hp => ?_⟩
  · rw [after, if_pos (h.mpr hp)]
  · rw [after, if_neg (mt h.mp hp)]

/-! ### The index register -/

omit [Memory μ] in
/-- Forming an address moves the index register. -/
theorem registers_formAddress (operand : IndexedOperand) (word : Word) (m : Machine μ) :
    (m.after (formAddress operand.base operand.form word)).cpu.registers
      = operand.move m.cpu.registers := by
  obtain ⟨base, form, indirect⟩ := operand
  cases form <;> rfl

/-- The registers once the operand of a row is located, but for PC. -/
def indexed (m : Machine μ) (row : Instruction) : Registers :=
  match IndexedOperand.decode? (m.opened.gives fetch) with
  | some operand => if row.mode = .indexed then operand.move m.cpu.registers else m.cpu.registers
  | none => m.cpu.registers

/-- Nothing but PC and an automatic index register changes while the operand is located. -/
theorem registers_located_move (meaningful : row.mode = .indexed →
      IndexedOperand.decode? (m.opened.gives fetch) ≠ none) :
    ∃ pc, (m.located row).cpu.registers = { m.indexed row with pc } := by
  by_cases mode : row.mode = .indexed
  case pos =>
    obtain ⟨operand, decoded⟩ := Option.ne_none_iff_exists'.mp (meaningful mode)
    let read := (m.opened.after fetch).after (fetchBytes operand.form.length)
    -- forming the address moves the index register
    have formed : (m.located row).cpu.registers = operand.move read.cpu.registers := by
      simp only [located, mode, resolve, resolveIndexed, after_bind, decoded]
      split <;> simp [registers_loadWord, registers_formAddress, read]
    -- up to here only PC has moved, which no automatic form counts from
    obtain ⟨pc, hpc⟩ : ∃ pc, read.cpu.registers = { m.cpu.registers with pc } := by
      have opened : m.opened.cpu.registers = (m.after fetchOpcode).cpu.registers := rfl
      rw [registers_fetchBytes, registers_fetch, opened, registers_fetchOpcode]
      exact ⟨_, rfl⟩
    refine ⟨pc, ?_⟩
    rw [formed, hpc, IndexedOperand.move_pc (IndexedOperand.base_mem decoded)]
    simp only [indexed, decoded, if_pos mode]
  -- other modes move PC alone
  case neg =>
    obtain ⟨pc, hpc⟩ := registers_located (m := m) mode
    refine ⟨pc, hpc.trans ?_⟩
    rw [indexed]
    split <;> simp [mode]

/-! ### Comparisons -/

/-- An operation with a memory byte, seen in the registers. -/
theorem registers_binary (op : BinaryOp) (acc : Accumulator) (address : Word) (m : Machine μ) :
    let r := m.cpu.registers
    let result := op.apply (acc.get r) (m.gives (load address)) r.cc
    (m.after (perform (.binary op acc) address)).cpu.registers
      = acc.set result.1 { r with cc := result.2 } := by
  simp [perform, registers_load]

/-- A comparison of words changes the codes only. -/
theorem registers_compareWord (name : RegisterName) (address : Word) (m : Machine μ) :
    let r := m.cpu.registers
    (m.after (perform (.compareWord name) address)).cpu.registers
      = { r with cc := (sub16 (r.read name) (m.gives (loadWord address)) r.cc).2 } := by
  simp [perform, setFlags, Cpu.setFlags, registers_loadWord]

/-- SUBD leaves the difference in D. -/
theorem registers_subD (address : Word) (m : Machine μ) :
    let r := m.cpu.registers
    let result := sub16 r.d (m.gives (loadWord address)) r.cc
    (m.after (perform .subD address)).cpu.registers
      = { r with cc := result.2 }.setD result.1 := by
  simp [perform, registers_loadWord]

/-- The codes decide the order: whichever machine of this kind has them, every branch at its PC is
taken just when the operands compare as it says. -/
def Tells (μ : Type) [Memory μ] (cc : Flags) (condition : Condition) (p : Prop) : Prop :=
  ∀ m : Machine μ, m.cpu.registers.cc = cc → m.BranchesIf condition p

/-- The codes of a difference tell the order of the operands. -/
theorem decidesOrder_tells {w r o : ℕ} (hw : 0 < w) (hr : r < 2 ^ w) (ho : o < 2 ^ w)
    (cc : Flags) : DecidesOrder (Tells μ (cc.withDifference w r o)) w r o := by
  refine (decidesOrder_withDifference cc hw hr ho).mono fun condition p holds m codes => ?_
  rw [← codes] at holds
  exact branchesIf_iff holds

/-- A comparison leaves the codes of its difference, and so does a subtraction. -/
theorem compared_perform (hrow : row ∈ OpcodeMap.rows) (address : Word) (m : Machine μ) :
    let r' := (m.after (perform row.operation address)).cpu.registers
    row.Compared (m.gives (load address)) (m.gives (loadWord address)) m.cpu.registers r'
      (Tells μ r'.cc) := by
  obtain ⟨compareByte, compareWord, subtractByte, subtractWord, -⟩ :=
    Instruction.rows_comparing row hrow
  intro r'
  constructor
  case compareByte =>
    intro acc mnemonic
    have codes : r' = { m.cpu.registers with
        cc := m.cpu.registers.cc.withDifference 8 (acc.get m.cpu.registers).toNat
          (m.gives (load address)).toNat } := by
      simp only [r', compareByte _ mnemonic rfl, registers_binary, BinaryOp.apply, sub8_eq]
      -- the register that is compared is written back as it was
      cases acc <;> rfl
    rw [codes]
    exact ⟨rfl, decidesOrder_tells (by omega) (UInt8.toNat_lt _) (UInt8.toNat_lt _) _⟩
  case compareWord =>
    intro name mnemonic
    have codes : r' = { m.cpu.registers with
        cc := m.cpu.registers.cc.withDifference 16 (m.cpu.registers.read name).toNat
          (m.gives (loadWord address)).toNat } := by
      simp only [r', compareWord _ mnemonic rfl, registers_compareWord, sub16_eq]
    rw [codes]
    exact ⟨rfl, decidesOrder_tells (by omega) (UInt16.toNat_lt _) (UInt16.toNat_lt _) _⟩
  case subtractByte =>
    intro acc mnemonic
    simp only [r', subtractByte _ mnemonic rfl, registers_binary, BinaryOp.apply, sub8_eq]
  case subtractWord =>
    intro mnemonic
    simp only [r', subtractWord mnemonic, registers_subD, sub16_eq]

/-- **Compare and branch decides the order.** Let a comparison, or a subtraction without borrow, be
at PC, with a postbyte that has a meaning if its operand is indexed. Then it is executed, and while
its operand is located no register but PC and an automatic index register changes. What it leaves
after that is listed by `Instruction.Compared`: a comparison changes nothing but the condition
codes, and each branch on these, short or long, is taken just when the register and the operand
are so ordered. A subtraction leaves the difference modulo the width, and the codes of the
comparison. -/
theorem compare_and_branch (lookup : OpcodeMap.lookup? (m.gives fetchOpcode).1 = some row)
    (comparing : row.mnemonic ∈ Instruction.comparing)
    (meaningful : row.mode = .indexed → IndexedOperand.decode? (m.opened.gives fetch) ≠ none) :
    ∃ operand, m.Locates row operand ∧ (∃ used, m.gives executeNext = .ok used) ∧
      (∃ pc, (m.located row).cpu.registers = { m.indexed row with pc }) ∧
      row.Compared ((m.located row).gives (load operand.address))
        ((m.located row).gives (loadWord operand.address)) (m.located row).cpu.registers
        (m.after executeNext).cpu.registers (Tells μ (m.after executeNext).cpu.registers.cc) := by
  have hrow := List.mem_of_find?_eq_some lookup
  obtain ⟨-, -, -, -, valid⟩ := Instruction.rows_comparing row hrow
  obtain ⟨operand, resolved⟩ := resolve_located (valid comparing) meaningful row.code
    m.cpu.registers.pc
  have locates : m.Locates row operand := ⟨lookup, resolved⟩
  refine ⟨operand, locates, locates.gives, registers_located_move meaningful, ?_⟩
  -- the message at the end is the only thing that comes after the operation
  rw [locates.registers]
  exact compared_perform hrow operand.address (m.located row)

/-- A machine with `$80` in A about to compare it with 1 and to branch 16 bytes ahead if it is less.
The difference is too small for a byte, and the result is positive. -/
def comparingBytes : Machine Ram :=
  let m := ofMemory { contents := #[0x81, 0x01, 0x2D, 0x10] }
  { m with cpu := m.cpu.setRegister .a 0x80 }

/-- BLT is taken there, although the result of the comparison is positive. -/
theorem compare_and_branch_overflowing :
    OpcodeMap.lookup? (comparingBytes.gives fetchOpcode).1
        = some (.row 0x81 "CMPA" .imm8 2 (.binary .cmp .a)) ∧
      (comparingBytes.after executeNext).cpu.registers.cc = { Flags.none with v := true } ∧
      ((comparingBytes.after executeNext).after executeNext).cpu.registers
        = { comparingBytes.cpu.registers with
            pc := 0x14, cc := { Flags.none with v := true } } := by
  have lookup : OpcodeMap.lookup? (comparingBytes.gives fetchOpcode).1
      = some (.row 0x81 "CMPA" .imm8 2 (.binary .cmp .a)) := by decide +kernel
  obtain ⟨operand, locates, -, -, compared⟩ := compare_and_branch lookup (by decide) nofun
  -- the comparison has overflowed, and BLT goes by the signed order all the same
  have less := (compared.compareByte .a (by decide)).2.lt _ rfl
    (.row 0x2D "BLT" .rel8 3 (.branch .lt)) (by decide +kernel) (by decide)
  obtain rfl := Except.ok.inj locates.resolved
  exact ⟨lookup, rfl, less.2.1 (by decide)⟩

end Machine

end Machine6809
