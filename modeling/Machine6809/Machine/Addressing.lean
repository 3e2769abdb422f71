import Machine6809.Cpu.Indexed
import Machine6809.Cpu.OpcodeMap
import Machine6809.Machine.Basic

/-!
# Locating operands

`Machine.resolve` consumes the operand bytes at PC and gives the address of the operand, so that
every operation can load from there. An immediate operand lies in the instruction itself: its
bytes are loaded once as part of the instruction and once more by the operation. The address of a
branch is the place it leads to.
-/

namespace Machine6809

/-- A located operand. -/
structure Located where
  /-- Where the operand is. -/
  address : Word
  /-- The bytes of the instruction that said so. -/
  bytes : List Byte
  /-- The cycles that finding it added. -/
  cycles : Nat
  deriving DecidableEq, Repr, Inhabited

namespace Machine

variable {μ : Type} [Memory μ]

/-- Fetch a number of bytes. -/
def fetchBytes : Nat → Exec μ (List Byte)
  | 0 => return []
  | n + 1 => do
    let b ← fetch
    let bytes ← fetchBytes n
    return b :: bytes

/-- The word that an operand of one or two bytes stands for, a single byte as signed. -/
def operandWord : List Byte → Word
  | [b] => signExtend b
  | high :: low :: _ => wordOf high low
  | [] => 0

/-- The offset that an accumulator gives: D as it is, A and B as signed. -/
def accumulatorOffset (r : Registers) (name : RegisterName) : Word :=
  if name = .d then r.d else signExtend (lowByte (r.read name))

/-- The address that an indexed form makes of the base register and the operand bytes after the
postbyte. The automatic forms move the register. -/
def formAddress (base : RegisterName) (form : IndexedForm) (operand : Word) : Exec μ Word := do
  let r ← registers
  let value := r.read base
  match form with
  | .shortOffset offset => return value + offset
  | .postIncrement step =>
    modifyRegisters (·.assign base (value + step))
    return value
  | .preDecrement step =>
    modifyRegisters (·.assign base (value - step))
    return value - step
  | .plain => return value
  | .accumulatorOffset name => return value + accumulatorOffset r name
  | .byteOffset | .wordOffset => return value + operand
  | .pcByteOffset | .pcWordOffset => return r.pc + operand
  | .address => return operand

/-- Locate an indexed operand of the instruction at `start`. -/
def resolveIndexed (start : Word) : Exec μ (Except Fault Located) := do
  let postbyte ← fetch
  match IndexedOperand.decode? postbyte with
  | none => return .error (.invalidPostbyte postbyte start)
  | some operand =>
    -- the offset is fetched first, since it may count from the PC behind it
    let rest ← fetchBytes operand.form.length
    let formed ← formAddress operand.base operand.form (operandWord rest)
    let address ← if operand.indirect then loadWord formed else pure formed
    return .ok { address, bytes := postbyte :: rest, cycles := operand.cycles }

/-- Locate an immediate operand of `n` bytes: PC moves past it and its bytes are loaded. -/
def resolveImmediate (n : Nat) : Exec μ Located := do
  let address := (← registers).pc
  goto (address + UInt16.ofNat n)
  let bytes ← loadBytes address n
  return { address, bytes, cycles := 0 }

/-- Locate an operand in the direct page, as it is before the operand is fetched. -/
def resolveDirect : Exec μ Located := do
  let page := (← registers).dp
  let low ← fetch
  return { address := wordOf page low, bytes := [low], cycles := 0 }

/-- Locate an operand whose whole address follows the opcode. -/
def resolveExtended : Exec μ Located := do
  let bytes ← fetchBytes 2
  return { address := operandWord bytes, bytes, cycles := 0 }

/-- The place at a distance of `n` bytes from the end of the operand. -/
def resolveRelative (n : Nat) : Exec μ Located := do
  let bytes ← fetchBytes n
  return { address := (← registers).pc + operandWord bytes, bytes, cycles := 0 }

/-- Locate the operand of the instruction `opcode` at `start`. -/
def resolve (mode : AddressingMode) (opcode start : Word) : Exec μ (Except Fault Located) := do
  match mode with
  | .inherent => return .ok { address := 0, bytes := [], cycles := 0 }
  | .imm8 => return .ok (← resolveImmediate 1)
  | .imm16 => return .ok (← resolveImmediate 2)
  | .direct => return .ok (← resolveDirect)
  | .extended => return .ok (← resolveExtended)
  | .indexed => resolveIndexed start
  | .rel8 => return .ok (← resolveRelative 1)
  | .rel16 => return .ok (← resolveRelative 2)
  | .invalid => return .error (.invalidAddressingMode opcode start)

end Machine

end Machine6809
