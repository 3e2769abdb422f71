import Machine6809.Proofs.Cpu.Codes
import Machine6809.Proofs.Cpu.Comparison
import Mathlib.Data.Nat.Notation

/-!
# Which instructions leap

An instruction is followed by the one behind it unless it gives PC a value of its own. That is said
twice here. `Operation.Leaps` says it of the operation, which is where it can be proved, and
`Instruction.Leaps` by mnemonics and operand bytes, as a programmer would. No row of the opcode map
leaps in the first sense and not in the second (`Instruction.leaps_of_operation`).
-/

namespace Machine6809

/-- The operation gives PC a value of its own, given its operand byte and the codes it finds. -/
def Operation.Leaps (operand : Byte) (cc : Flags) : Operation → Prop
  | .branch condition | .longBranch condition => condition.holds cc = true
  | .jump | .call | .return | .rti | .swi _ _ => True
  | .transfer => operand.toNat % 16 = 0x5
  | .exchange => operand.toNat % 16 = 0x5 ∨ operand.toNat / 16 = 0x5
  | .pull _ => bitOf operand 7 = true
  | .loadWord name | .lea name => name = .pc
  | _ => False

/-- The operand byte matters only where it chooses registers. -/
theorem Operation.Leaps.of_moves {operation : Operation} {operand operand' : Byte} {cc : Flags}
    (h : operation.Leaps operand cc) (same : operation.moves = true → operand = operand') :
    operation.Leaps operand' cc := by
  cases operation with
  | transfer | exchange | pull => exact same rfl ▸ h
  | _ => exact h

/-- The condition of a branch. -/
def Operation.condition? : Operation → Option Condition
  | .branch condition | .longBranch condition => some condition
  | _ => none

/-- The operation leaps whatever it finds. -/
def Operation.jumps : Operation → Bool
  | .jump | .call | .return | .rti | .swi _ _ => true
  | _ => false

/-- PC is pulled if bit 7 of the list is set. -/
theorem Stack.pc_mem_selected (stack : Stack) (list : Byte) :
    .pc ∈ stack.selected list ↔ bitOf list 7 = true := by
  cases stack <;> simp [selected, registers, Stack.other]

namespace Instruction

/-- The branches that can be taken, short and long, each with its condition. -/
def takenBranches : List (String × Condition) :=
  [("BRA", .always), ("LBRA", .always), ("BPL", .pl), ("LBPL", .pl), ("BMI", .mi), ("LBMI", .mi)]
    ++ orderBranches

/-- The jumps, calls and returns, and the software interrupts. -/
def jumps : List String :=
  ["JMP", "JSR", "BSR", "LBSR", "RTS", "RTI", "SWI", "SWI2", "SWI3"]

/-- The instruction is a branch that is taken, a jump, a call, a return or a software interrupt, or
PC is among the registers that its operand byte names as written. -/
def Leaps (row : Instruction) (operand : Byte) (cc : Flags) : Prop :=
  (∃ branch ∈ takenBranches, row.mnemonic = branch.1 ∧ branch.2.holds cc = true) ∨
    row.mnemonic ∈ jumps ∨
    row.mnemonic = "TFR" ∧ operand.toNat % 16 = 0x5 ∨
    row.mnemonic = "EXG" ∧ (operand.toNat % 16 = 0x5 ∨ operand.toNat / 16 = 0x5) ∨
    row.mnemonic ∈ ["PULS", "PULU"] ∧ bitOf operand 7 = true

instance (row : Instruction) (operand : Byte) (cc : Flags) : Decidable (row.Leaps operand cc) := by
  unfold Leaps
  infer_instance

/-- The rows whose operation can go somewhere are those that are listed. -/
theorem rows_leaping : ∀ row ∈ OpcodeMap.rows,
    (∀ condition ∈ row.operation.condition?,
        condition = .never ∨ (row.mnemonic, condition) ∈ takenBranches) ∧
      (row.operation.jumps = true → row.mnemonic ∈ jumps) ∧
      row.operation ≠ .loadWord .pc ∧ row.operation ≠ .lea .pc := by
  decide +kernel

/-- What the operation does can be told from the mnemonic and the operand byte. -/
theorem leaps_of_operation {row : Instruction} {operand : Byte} {cc : Flags}
    (hrow : row ∈ OpcodeMap.rows) (h : row.operation.Leaps operand cc) : row.Leaps operand cc := by
  obtain ⟨branch, jump, noLoad, noLea⟩ := rows_leaping row hrow
  obtain ⟨-, transfer, exchange, pull⟩ := rows_moving row hrow
  -- a branch on a condition that holds is a branch taken
  have taken {condition : Condition} (hc : condition ∈ row.operation.condition?)
      (holds : condition.holds cc = true) : row.Leaps operand cc := by
    obtain rfl | listed := branch condition hc
    · exact absurd holds Bool.false_ne_true
    · exact .inl ⟨_, listed, rfl, holds⟩
  generalize row.operation = operation at *
  cases operation with
  | branch condition | longBranch condition => exact taken rfl h
  | jump | call | «return» | rti | swi vector masks => exact .inr (.inl (jump rfl))
  | transfer => exact .inr (.inr (.inl ⟨transfer rfl, h⟩))
  | exchange => exact .inr (.inr (.inr (.inl ⟨exchange rfl, h⟩)))
  | pull stack => exact .inr (.inr (.inr (.inr ⟨pull (by cases stack <;> decide), h⟩)))
  -- no row loads PC with a word or with an address
  | loadWord name => exact absurd (congrArg Operation.loadWord h) noLoad
  | lea name => exact absurd (congrArg Operation.lea h) noLea
  | _ => exact absurd h id

end Instruction

end Machine6809
