import Machine6809.Cpu.State
import Machine6809.Proofs.Cpu.Digits
import Machine6809.Proofs.Cpu.Stores

/-!
# The forms of an operation

An operation of an accumulator with a byte has a row for A and, `$40` higher, one for B
(`Instruction.rows_twins`), and one is made from the other by an exchange of the two accumulators.
An operation on one byte has rows for memory and one row for each accumulator, and all of them hand
the byte to the same `UnaryOp.apply` (`Instruction.rows_unary`). Both are seen row by row, since the
mnemonic of a row could belong to another operation, or to the wrong accumulator.
-/

namespace Machine6809

/-! ### A and B exchanged -/

/-- The other accumulator. -/
def Accumulator.other : Accumulator → Accumulator
  | .a => .b
  | .b => .a

/-- The registers with A and B exchanged. -/
def Registers.exchanged (r : Registers) : Registers := { r with a := r.b, b := r.a }

/-- The processor with A and B exchanged. -/
def Cpu.exchanged (cpu : Cpu) : Cpu := { cpu with registers := cpu.registers.exchanged }

/-- The other accumulator of the exchanged registers has the same value. -/
theorem Accumulator.get_exchanged (acc : Accumulator) (r : Registers) :
    acc.other.get r.exchanged = acc.get r := by
  cases acc <;> rfl

/-- It can be set before or after the exchange. -/
theorem Accumulator.set_exchanged (acc : Accumulator) (v : Byte) (r : Registers) :
    acc.other.set v r.exchanged = (acc.set v r).exchanged := by
  cases acc <;> rfl

namespace Operation

/-- The operation takes a byte of memory and an accumulator. -/
def joins : Operation → Bool
  | .binary _ _ | .store _ => true
  | _ => false

/-- The same operation with the other accumulator. -/
def exchanged : Operation → Operation
  | .binary op acc => .binary op acc.other
  | .modifyAcc op acc => .modifyAcc op acc.other
  | .store acc => .store acc.other
  | operation => operation

end Operation

/-- The fault of an instruction whose opcode is `$40` higher. -/
def Fault.twin : Fault → Fault
  | .invalidAddressingMode opcode pc => .invalidAddressingMode (opcode + 0x40) pc
  | fault => fault

namespace Instruction

/-- The row for B that belongs to a row for A. -/
def twin (row : Instruction) (mnemonic : String) : Instruction :=
  { row with code := row.code + 0x40, mnemonic, operation := row.operation.exchanged }

/-- The operations of an accumulator with a byte, without the letter of the accumulator. -/
def accumulatorNames : List String :=
  ["SUB", "CMP", "SBC", "AND", "BIT", "LD", "ST", "EOR", "ADC", "OR", "ADD"]

/-- The operations on one byte. -/
def unaryNames : List (String × UnaryOp) := modifiers ++ [("TST", .tst)]

/-- Among these rows there is one with the mnemonic in each of the modes, and an opcode leads to
it. -/
def HasForms (rows : List Instruction) (mnemonic : String) (modes : List AddressingMode) : Prop :=
  ∀ mode ∈ modes, ∃ row ∈ rows, row.mode = mode ∧ row.mnemonic = mnemonic ∧
    OpcodeMap.lookup? row.code = some row

instance (rows : List Instruction) (mnemonic : String) (modes : List AddressingMode) :
    Decidable (HasForms rows mnemonic modes) :=
  inferInstanceAs (Decidable (∀ mode ∈ modes, ∃ row ∈ rows, _))

/-- No form is missing. A store has an opcode for immediate mode, which is invalid. -/
theorem hasForms_joining : ∀ name ∈ accumulatorNames, ∀ acc ∈ [Accumulator.a, .b],
    HasForms OpcodeMap.accumulatorRows (name ++ acc.letter)
      [if name = "ST" then .invalid else .imm8, .direct, .indexed, .extended] := by
  decide +kernel

/-- Each unary operation has its three memory forms and two accumulator forms. -/
theorem hasForms_unary : ∀ p ∈ unaryNames,
    HasForms OpcodeMap.unaryRows p.1 [.direct, .indexed, .extended] ∧
      ∀ acc ∈ [Accumulator.a, .b],
        HasForms OpcodeMap.unaryRows (p.1 ++ acc.letter) [.inherent] := by
  decide +kernel

/-- Rows for A and B that are named alike differ in the accumulator only. -/
theorem rows_twins : ∀ row ∈ OpcodeMap.rows, ∀ name ∈ accumulatorNames, row.mnemonic = name ++ "A" →
    row.code < 0x100 ∧ row.operation.joins = true ∧
      ∀ row' ∈ OpcodeMap.rows, row'.mnemonic = name ++ "B" → row'.mode = row.mode →
        row' = row.twin (name ++ "B") ∧ row'.code < 0x100 := by
  decide +kernel

/-- Rows of unary operations do the same to an accumulator or to memory. -/
theorem rows_unary : ∀ row ∈ OpcodeMap.rows, ∀ p ∈ unaryNames,
    (∀ acc ∈ [Accumulator.a, .b], row.mnemonic = p.1 ++ acc.letter →
      row = .inherent row.code row.mnemonic 2 (.modifyAcc p.2 acc) ∧ row.code < 0x100) ∧
      (row.mnemonic = p.1 →
        row.operation = .modify p.2 ∧ row.mode ∈ [.direct, .indexed, .extended]) := by
  decide +kernel

/-- All of them but TST write a result back. -/
theorem modifies_or_tests {name : String} {op : UnaryOp} (h : (name, op) ∈ unaryNames) :
    (name, op) ∈ modifiers ∧ op ≠ .tst ∨ name = "TST" ∧ op = .tst := by
  have writes : ∀ p ∈ modifiers, p.2 ≠ .tst := by decide
  obtain mem | mem := List.mem_append.mp h
  · exact .inl ⟨mem, writes _ mem⟩
  · exact .inr (Prod.mk.inj (List.mem_singleton.mp mem))

end Instruction

end Machine6809
