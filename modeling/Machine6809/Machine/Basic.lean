import Machine6809.Cpu.Operation
import Machine6809.Cpu.State

/-!
# The processor with its memory

A `Machine` is a processor joined to a memory of any kind. Actions on it (`Exec`) change the
machine and give a value. An action that can fail gives `Except Fault`, so that what happened before
the fault stays done.

Here are the actions from which all others are made: loading and storing, fetching at PC, and
moving bytes to and from a stack.
-/

namespace Machine6809

/-- A processor and its memory. -/
structure Machine (μ : Type) where
  cpu : Cpu
  memory : μ

/-- An action of the machine. -/
abbrev Exec (μ : Type) := StateM (Machine μ)

namespace Machine

variable {μ : Type}

/-- A processor that has just been made, joined to a memory. -/
def ofMemory (memory : μ) : Machine μ := { cpu := Cpu.initial, memory }

/-- Change the processor. -/
@[inline] def modifyCpu (f : Cpu → Cpu) : Exec μ Unit :=
  fun ⟨cpu, memory⟩ => ((), ⟨f cpu, memory⟩)

/-- The registers as they are now. -/
@[inline] def registers : Exec μ Registers := fun m => (m.cpu.registers, m)

/-- Change the registers without any side effect. -/
@[inline] def modifyRegisters (f : Registers → Registers) : Exec μ Unit :=
  modifyCpu fun cpu => { cpu with registers := f cpu.registers }

/-- Write a register. A write to S arms NMI. -/
def setRegister (name : RegisterName) (value : Word) : Exec μ Unit :=
  modifyCpu (·.setRegister name value)

/-- Replace the condition codes. -/
def setFlags (cc : Flags) : Exec μ Unit := modifyCpu (·.setFlags cc)

/-- Continue at an address. -/
def goto (address : Word) : Exec μ Unit := modifyRegisters fun r => { r with pc := address }

/-- Leave a message. -/
def note (message : Message) : Exec μ Unit := modifyCpu (·.note message)

/-! ### Memory -/

variable [Memory μ]

/-- Load a byte. -/
def load (address : Word) : Exec μ Byte := fun ⟨cpu, memory⟩ =>
  let r := Memory.load memory address
  (r.value, ⟨r.signals.foldl Cpu.absorb cpu, r.memory⟩)

/-- Store a byte. -/
def store (address : Word) (value : Byte) : Exec μ Unit := fun ⟨cpu, memory⟩ =>
  let r := Memory.store memory address value
  ((), ⟨r.signals.foldl Cpu.absorb cpu, r.memory⟩)

/-- Load a word, its high byte first. -/
def loadWord (address : Word) : Exec μ Word := do
  let high ← load address
  let low ← load (address + 1)
  return wordOf high low

/-- Store a word, its high byte first. -/
def storeWord (address value : Word) : Exec μ Unit := do
  store address (highByte value)
  store (address + 1) (lowByte value)

/-- Store bytes at ascending addresses. -/
def storeBytes (address : Word) : List Byte → Exec μ Unit
  | [] => return ()
  | b :: bytes => do
    store address b
    storeBytes (address + 1) bytes

/-- Load bytes from ascending addresses. -/
def loadBytes (address : Word) : Nat → Exec μ (List Byte)
  | 0 => return []
  | n + 1 => do
    let b ← load address
    let bytes ← loadBytes (address + 1) n
    return b :: bytes

/-- Load the byte at PC and move PC past it. -/
def fetch : Exec μ Byte := do
  let pc := (← registers).pc
  let b ← load pc
  goto (pc + 1)
  return b

/-! ### Stacks -/

/-- Push a byte. -/
def pushByte (stack : Stack) (value : Byte) : Exec μ Unit := do
  let top := (← registers).read stack.pointer - 1
  modifyRegisters (·.assign stack.pointer top)
  store top value

/-- Pull a byte. -/
def pullByte (stack : Stack) : Exec μ Byte := do
  let top := (← registers).read stack.pointer
  let value ← load top
  modifyRegisters (·.assign stack.pointer (top + 1))
  return value

/-- Push a word, its low byte first. -/
def pushWord (stack : Stack) (value : Word) : Exec μ Unit := do
  pushByte stack (lowByte value)
  pushByte stack (highByte value)

/-- Pull a word, its high byte first. -/
def pullWord (stack : Stack) : Exec μ Word := do
  let high ← pullByte stack
  let low ← pullByte stack
  return wordOf high low

/-- Push bytes, the first one first. -/
def pushBytes (stack : Stack) : List Byte → Exec μ Unit
  | [] => return ()
  | b :: bytes => do
    pushByte stack b
    pushBytes stack bytes

/-- Push the registers of a list and say how many bytes that took. The frame is laid down from its
highest address downward and holds the registers as they were at the start. -/
def pushFrame (stack : Stack) (list : Byte) : Exec μ Nat := do
  let frame := (← registers).frame stack list
  -- a frame is listed from its lowest address
  pushBytes stack frame.reverse
  return frame.length

/-- Pull one register and say how many bytes that took. -/
def pullRegister (stack : Stack) (name : RegisterName) : Exec μ Nat := do
  if name.isByte then
    let value ← pullByte stack
    setRegister name value.toUInt16
    return 1
  else
    let value ← pullWord stack
    setRegister name value
    return 2

/-- Pull registers in order and say how many bytes that took. -/
def pullRegisters (stack : Stack) : List RegisterName → Exec μ Nat
  | [] => return 0
  | name :: names => do
    let n ← pullRegister stack name
    let rest ← pullRegisters stack names
    return n + rest

/-- Pull the registers of a list and say how many bytes that took. -/
def pullFrame (stack : Stack) (list : Byte) : Exec μ Nat :=
  pullRegisters stack (stack.selected list)

end Machine

end Machine6809
