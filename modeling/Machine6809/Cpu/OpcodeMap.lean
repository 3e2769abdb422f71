import Machine6809.Cpu.Interrupt
import Machine6809.Cpu.Operation

/-!
# The opcode map

Every instruction is a row with its opcode, its mnemonic, the way its operand is located, its
cost and its operation. The opcodes of the second and third page carry the prefix byte, `$10` or
`$11`, as their high byte. The rows come in families whose members lie at fixed distances, such
as the accumulator instructions, which exist for A and, `$40` higher, for B, and for each of
these in four modes `$10` apart.

A store has no immediate form. Its row is there all the same, with the mode `invalid`, and keeps
the size of the operand that the encoding implies.
-/

namespace Machine6809

/-- How an instruction locates its operand. -/
inductive AddressingMode where
  /-- No operand. -/
  | inherent
  /-- The byte after the opcode. -/
  | imm8
  /-- The word after the opcode. -/
  | imm16
  /-- A byte after the opcode, with the direct page above it. -/
  | direct
  /-- A whole address after the opcode. -/
  | extended
  /-- A postbyte and what it asks for. -/
  | indexed
  /-- A signed distance of one byte. -/
  | rel8
  /-- A distance of two bytes. -/
  | rel16
  /-- The encoding has no meaning. -/
  | invalid
  deriving DecidableEq, Repr, Inhabited

namespace AddressingMode

/-- The bytes that belong to the operand in every case; indexed operands may have more. -/
def operandLength : AddressingMode → Nat
  | .inherent | .invalid => 0
  | .imm8 | .direct | .indexed | .rel8 => 1
  | .imm16 | .extended | .rel16 => 2

/-- The name of a mode. -/
def name : AddressingMode → String
  | .inherent => "Inherent"
  | .imm8 => "Imm8"
  | .imm16 => "Imm16"
  | .direct => "Direct"
  | .extended => "Extended"
  | .indexed => "Indexed"
  | .rel8 => "Rel8"
  | .rel16 => "Rel16"
  | .invalid => "Invalid"

end AddressingMode

/-- A row of the opcode map. -/
structure Instruction where
  /-- The opcode, with the prefix as its high byte. -/
  code : Word
  mnemonic : String
  mode : AddressingMode
  /-- The cost without what the operand or the operation may add. -/
  cycles : Nat
  /-- The bytes of opcode and operand, without those that a postbyte may ask for. -/
  size : Nat
  operation : Operation
  deriving DecidableEq, Repr, Inhabited

/-- The bytes of an opcode. -/
def opcodeLength (code : Word) : Nat := if code < 0x100 then 1 else 2

namespace Instruction

/-- A row whose size follows from its mode. -/
def row (code : Word) (mnemonic : String) (mode : AddressingMode) (cycles : Nat)
    (operation : Operation) : Instruction :=
  { code, mnemonic, mode, cycles, size := opcodeLength code + mode.operandLength, operation }

/-- An instruction without operand. -/
def inherent (code : Word) (mnemonic : String) (cycles : Nat) (operation : Operation) :
    Instruction :=
  row code mnemonic .inherent cycles operation

/-- The direct, indexed and extended form at the given distances, with their costs. -/
def memoryForms (code indexed extended : Word) (mnemonic : String) (cost : Nat × Nat × Nat)
    (operation : Operation) : List Instruction :=
  [row code mnemonic .direct cost.1 operation,
    row (code + indexed) mnemonic .indexed cost.2.1 operation,
    row (code + extended) mnemonic .extended cost.2.2 operation]

/-- The immediate form and, `$10` apart, the three memory forms. -/
def fourForms (code : Word) (mnemonic : String) (immediate : AddressingMode)
    (cost : Nat × Nat × Nat × Nat) (operation : Operation) : List Instruction :=
  row code mnemonic immediate cost.1 operation
    :: memoryForms (code + 0x10) 0x10 0x20 mnemonic cost.2 operation

/-- The forms of a store. -/
def storeForms (code : Word) (mnemonic : String) (implied : AddressingMode)
    (cost : Nat × Nat × Nat) (operation : Operation) : List Instruction :=
  { code, mnemonic, mode := .invalid, cycles := 2, operation,
    size := opcodeLength code + implied.operandLength }
    :: memoryForms (code + 0x10) 0x10 0x20 mnemonic cost operation

/-! ### Costs -/

/-- The costs of the four forms of an 8-bit accumulator instruction. -/
def byteCost : Nat × Nat × Nat × Nat := (2, 4, 4, 5)

/-- The costs of the four forms of a 16-bit sum or comparison on the first page. -/
def wordCost : Nat × Nat × Nat × Nat := (4, 6, 6, 7)

/-- The costs of the four forms of a 16-bit comparison on the other pages. -/
def prefixedWordCost : Nat × Nat × Nat × Nat := (5, 7, 7, 8)

/-- The costs of the four forms of a 16-bit load on the first page. -/
def loadCost : Nat × Nat × Nat × Nat := (3, 5, 5, 6)

/-- The costs of the four forms of a 16-bit load on the second page. -/
def prefixedLoadCost : Nat × Nat × Nat × Nat := (4, 6, 6, 7)

/-! ### Families -/

/-- An operation on one byte: in memory, on A and on B. -/
def unaryFamily (n : Word) (mnemonic : String) (op : UnaryOp) : List Instruction :=
  memoryForms n 0x60 0x70 mnemonic (6, 6, 7) (.modify op)
    ++ [inherent (n + 0x40) (mnemonic ++ "A") 2 (.modifyAcc op .a),
      inherent (n + 0x50) (mnemonic ++ "B") 2 (.modifyAcc op .b)]

/-- An operation of an accumulator with a byte. -/
def binaryFamily (n : Word) (mnemonic : String) (op : BinaryOp) : List Instruction :=
  fourForms (n + 0x80) (mnemonic ++ "A") .imm8 byteCost (.binary op .a)
    ++ fourForms (n + 0xC0) (mnemonic ++ "B") .imm8 byteCost (.binary op .b)

/-- A condition's branches: the short one and the long one on the second page. -/
def branchFamily (n : Word) (letters : String) (condition : Condition) : List Instruction :=
  [row (n + 0x20) ("B" ++ letters) .rel8 3 (.branch condition),
    row (n + 0x1020) ("LB" ++ letters) .rel16 5 (.longBranch condition)]

end Instruction

open Instruction

namespace OpcodeMap

/-- The operations on one byte. -/
def unaryRows : List Instruction :=
  unaryFamily 0x00 "NEG" .neg ++ unaryFamily 0x03 "COM" .com ++ unaryFamily 0x04 "LSR" .lsr
    ++ unaryFamily 0x06 "ROR" .ror ++ unaryFamily 0x07 "ASR" .asr ++ unaryFamily 0x08 "LSL" .lsl
    ++ unaryFamily 0x09 "ROL" .rol ++ unaryFamily 0x0A "DEC" .dec ++ unaryFamily 0x0C "INC" .inc
    ++ unaryFamily 0x0D "TST" .tst ++ unaryFamily 0x0F "CLR" .clr

/-- The operations of an accumulator, the stores included. -/
def accumulatorRows : List Instruction :=
  binaryFamily 0x0 "SUB" .sub ++ binaryFamily 0x1 "CMP" .cmp ++ binaryFamily 0x2 "SBC" .sbc
    ++ binaryFamily 0x4 "AND" .and ++ binaryFamily 0x5 "BIT" .bit ++ binaryFamily 0x6 "LD" .load
    ++ storeForms 0x87 "STA" .imm8 (4, 4, 5) (.store .a)
    ++ storeForms 0xC7 "STB" .imm8 (4, 4, 5) (.store .b)
    ++ binaryFamily 0x8 "EOR" .eor ++ binaryFamily 0x9 "ADC" .adc ++ binaryFamily 0xA "OR" .or
    ++ binaryFamily 0xB "ADD" .add

/-- The operations on 16-bit registers. -/
def wordRows : List Instruction :=
  fourForms 0x83 "SUBD" .imm16 wordCost .subD ++ fourForms 0xC3 "ADDD" .imm16 wordCost .addD
    ++ fourForms 0x8C "CMPX" .imm16 wordCost (.compareWord .x)
    ++ fourForms 0x1083 "CMPD" .imm16 prefixedWordCost (.compareWord .d)
    ++ fourForms 0x108C "CMPY" .imm16 prefixedWordCost (.compareWord .y)
    ++ fourForms 0x1183 "CMPU" .imm16 prefixedWordCost (.compareWord .u)
    ++ fourForms 0x118C "CMPS" .imm16 prefixedWordCost (.compareWord .s)
    ++ fourForms 0x8E "LDX" .imm16 loadCost (.loadWord .x)
    ++ fourForms 0xCC "LDD" .imm16 loadCost (.loadWord .d)
    ++ fourForms 0xCE "LDU" .imm16 loadCost (.loadWord .u)
    ++ fourForms 0x108E "LDY" .imm16 prefixedLoadCost (.loadWord .y)
    ++ fourForms 0x10CE "LDS" .imm16 prefixedLoadCost (.loadWord .s)
    ++ storeForms 0x8F "STX" .imm16 (5, 5, 6) (.storeWord .x)
    ++ storeForms 0xCD "STD" .imm16 (5, 5, 6) (.storeWord .d)
    ++ storeForms 0xCF "STU" .imm16 (5, 5, 6) (.storeWord .u)
    ++ storeForms 0x108F "STY" .imm16 (6, 6, 7) (.storeWord .y)
    ++ storeForms 0x10CF "STS" .imm16 (6, 6, 7) (.storeWord .s)
    ++ [row 0x30 "LEAX" .indexed 4 (.lea .x), row 0x31 "LEAY" .indexed 4 (.lea .y),
      row 0x32 "LEAS" .indexed 4 (.lea .s), row 0x33 "LEAU" .indexed 4 (.lea .u)]

/-- The branches, jumps, calls and returns. The two branches that are always taken cost the same
whether short or long. -/
def flowRows : List Instruction :=
  [row 0x20 "BRA" .rel8 3 (.branch .always), row 0x16 "LBRA" .rel16 5 (.branch .always)]
    ++ branchFamily 0x1 "RN" .never
    ++ branchFamily 0x2 "HI" .hi ++ branchFamily 0x3 "LS" .ls ++ branchFamily 0x4 "HS" .hs
    ++ branchFamily 0x5 "LO" .lo ++ branchFamily 0x6 "NE" .ne ++ branchFamily 0x7 "EQ" .eq
    ++ branchFamily 0x8 "VC" .vc ++ branchFamily 0x9 "VS" .vs ++ branchFamily 0xA "PL" .pl
    ++ branchFamily 0xB "MI" .mi ++ branchFamily 0xC "GE" .ge ++ branchFamily 0xD "LT" .lt
    ++ branchFamily 0xE "GT" .gt ++ branchFamily 0xF "LE" .le
    ++ memoryForms 0x0E 0x60 0x70 "JMP" (3, 3, 4) .jump
    ++ [row 0x8D "BSR" .rel8 7 .call, row 0x17 "LBSR" .rel16 9 .call]
    ++ memoryForms 0x9D 0x10 0x20 "JSR" (7, 7, 8) .call
    ++ [inherent 0x39 "RTS" 5 .return]

/-- Everything else. -/
def systemRows : List Instruction :=
  [inherent 0x12 "NOP" 2 .nop, inherent 0x13 "SYNC" 4 .sync, inherent 0x19 "DAA" 2 .daa,
    row 0x1A "ORCC" .imm8 3 .orCC, row 0x1C "ANDCC" .imm8 3 .andCC, inherent 0x1D "SEX" 2 .sex,
    row 0x1E "EXG" .imm8 8 .exchange, row 0x1F "TFR" .imm8 6 .transfer,
    row 0x34 "PSHS" .imm8 5 (.push .system), row 0x35 "PULS" .imm8 5 (.pull .system),
    row 0x36 "PSHU" .imm8 5 (.push .user), row 0x37 "PULU" .imm8 5 (.pull .user),
    inherent 0x3A "ABX" 3 .abx, inherent 0x3B "RTI" 6 .rti, row 0x3C "CWAI" .imm8 20 .cwai,
    inherent 0x3D "MUL" 11 .mul, inherent 0x3F "SWI" 19 (.swi VectorAddress.swi true),
    inherent 0x103F "SWI2" 20 (.swi VectorAddress.swi2 false),
    inherent 0x113F "SWI3" 20 (.swi VectorAddress.swi3 false)]

/-- All rows. -/
def rows : List Instruction :=
  accumulatorRows ++ flowRows ++ wordRows ++ unaryRows ++ systemRows

/-- The row of an opcode. -/
def lookup? (code : Word) : Option Instruction := rows.find? (·.code == code)

/-- The place of an opcode in a table of three pages; `none` if it lies on no page. -/
def slot? (code : Word) : Option Nat :=
  match (highByte code).toNat with
  | 0x00 => some (lowByte code).toNat
  | 0x10 => some (0x100 + (lowByte code).toNat)
  | 0x11 => some (0x200 + (lowByte code).toNat)
  | _ => none

end OpcodeMap

end Machine6809
