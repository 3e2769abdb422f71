import Machine6809.Cpu.Alu
import Machine6809.Cpu.Registers

/-!
# Operations

`Operation` lists what an instruction can do once its operand has been located. The operations on
A and on B are one constructor with the accumulator as an argument, and so are the branches, with
their `Condition`, and the moves of 16-bit registers. The two hardware stacks differ only in the
register that points at them, so `Stack` is an argument too.
-/

namespace Machine6809

/-- One of the two 8-bit accumulators. -/
inductive Accumulator where
  | a | b
  deriving DecidableEq, Repr, Inhabited

namespace Accumulator

/-- The register an accumulator is. -/
def register : Accumulator → RegisterName
  | .a => .a
  | .b => .b

/-- The contents of an accumulator. -/
def get : Accumulator → Registers → Byte
  | .a, r => r.a
  | .b, r => r.b

/-- Replace the contents of an accumulator. -/
def set (acc : Accumulator) (v : Byte) (r : Registers) : Registers :=
  match acc with
  | .a => { r with a := v }
  | .b => { r with b := v }

end Accumulator

/-! ### Conditions -/

/-- When a branch is taken. -/
inductive Condition where
  | always | never
  /-- Unsigned greater. -/
  | hi
  /-- Unsigned less or equal. -/
  | ls
  /-- Unsigned greater or equal. -/
  | hs
  /-- Unsigned less. -/
  | lo
  | ne | eq
  /-- No signed overflow. -/
  | vc
  /-- Signed overflow. -/
  | vs
  /-- The result is not negative. -/
  | pl
  /-- The result is negative. -/
  | mi
  | ge | lt | gt | le
  deriving DecidableEq, Repr, Inhabited

/-- A condition read off the condition codes. -/
def Condition.holds (cc : Flags) : Condition → Bool
  | .always => true
  | .never => false
  | .hi => !(cc.c || cc.z)
  | .ls => cc.c || cc.z
  | .hs => !cc.c
  | .lo => cc.c
  | .ne => !cc.z
  | .eq => cc.z
  | .vc => !cc.v
  | .vs => cc.v
  | .pl => !cc.n
  | .mi => cc.n
  | .ge => cc.n == cc.v
  | .lt => cc.n != cc.v
  | .gt => !cc.z && cc.n == cc.v
  | .le => cc.z || cc.n != cc.v

/-! ### Stacks -/

/-- One of the two stacks. Both grow downward. -/
inductive Stack where
  | system | user
  deriving DecidableEq, Repr, Inhabited

namespace Stack

/-- The register that points at the last byte pushed. -/
def pointer : Stack → RegisterName
  | .system => .s
  | .user => .u

/-- The stack pointer that can itself be pushed on this stack. -/
def other : Stack → RegisterName
  | .system => .u
  | .user => .s

/-- The registers that bits 0 to 7 of a register list name. -/
def registers (stack : Stack) : List RegisterName :=
  [.cc, .a, .b, .dp, .x, .y, stack.other, .pc]

/-- The registers selected by a list, from the lowest address of a frame upward. -/
def selected (stack : Stack) (list : Byte) : List RegisterName :=
  (stack.registers.zipIdx.filter (fun (_, i) => bitOf list i)).map (·.1)

end Stack

/-- The bytes of a register, high byte first. -/
def Registers.bytes (r : Registers) (name : RegisterName) : List Byte :=
  if name.isByte then [lowByte (r.read name)] else [highByte (r.read name), lowByte (r.read name)]

/-- What a register list stands for in memory, from the lowest address upward. -/
def Registers.frame (r : Registers) (stack : Stack) (list : Byte) : List Byte :=
  (stack.selected list).flatMap r.bytes

/-- The register list that names all registers. -/
def entireState : Byte := 0xFF

/-- The register list that names PC and CC. -/
def returnState : Byte := 0x81

/-! ### Transfers -/

/-- The register that a nibble of a transfer names. -/
def RegisterName.ofTransferCode? : Nat → Option RegisterName
  | 0x0 => some .d
  | 0x1 => some .x
  | 0x2 => some .y
  | 0x3 => some .u
  | 0x4 => some .s
  | 0x5 => some .pc
  | 0x8 => some .a
  | 0x9 => some .b
  | 0xA => some .cc
  | 0xB => some .dp
  | _ => none

/-- The word that a transfer reads from a register: an 8-bit register has all ones in its high
byte, and a register that does not exist reads as all ones. -/
def Registers.transferValue (r : Registers) : Option RegisterName → Word
  | some name => if name.isByte then 0xFF00 + r.read name else r.read name
  | none => 0xFFFF

/-! ### Operations -/

/-- What an instruction does once its operand is located. -/
inductive Operation where
  /-- Combine an accumulator with the operand byte. -/
  | binary (op : BinaryOp) (acc : Accumulator)
  /-- Change the operand byte in memory. -/
  | modify (op : UnaryOp)
  /-- Change an accumulator. -/
  | modifyAcc (op : UnaryOp) (acc : Accumulator)
  /-- Store an accumulator. -/
  | store (acc : Accumulator)
  /-- Load a 16-bit register. -/
  | loadWord (name : RegisterName)
  /-- Store a 16-bit register. -/
  | storeWord (name : RegisterName)
  /-- Compare a 16-bit register with the operand word. -/
  | compareWord (name : RegisterName)
  /-- Add the operand word to D. -/
  | addD
  /-- Subtract the operand word from D. -/
  | subD
  /-- Load a register with the operand's address. -/
  | lea (name : RegisterName)
  /-- Go to the operand's address if the condition holds. -/
  | branch (condition : Condition)
  /-- A branch that costs one more cycle when it is taken. -/
  | longBranch (condition : Condition)
  | jump
  /-- Push PC and go to the operand's address. -/
  | call
  /-- Pull PC. -/
  | return
  /-- Push the registers that the operand byte lists. -/
  | push (stack : Stack)
  /-- Pull the registers that the operand byte lists. -/
  | pull (stack : Stack)
  /-- Copy one register to another. -/
  | transfer
  /-- Exchange two registers. -/
  | exchange
  | orCC
  | andCC
  /-- Clear condition codes, stack the entire state and wait for an interrupt. -/
  | cwai
  /-- Wait until an interrupt line is asserted. -/
  | sync
  | nop
  /-- Return from an interrupt. -/
  | rti
  /-- A software interrupt, which may also mask the hardware ones. -/
  | swi (vector : Word) (masks : Bool)
  /-- Multiply A by B. -/
  | mul
  /-- Extend the sign of B into A. -/
  | sex
  /-- Adjust A to packed decimal. -/
  | daa
  /-- Add B to X as an unsigned number. -/
  | abx
  deriving DecidableEq, Repr, Inhabited

end Machine6809
