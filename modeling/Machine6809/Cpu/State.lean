import Machine6809.Cpu.Interrupt
import Machine6809.Cpu.RegisterFile
import Machine6809.Memory.Access

/-!
# The state of the processor

`Cpu` is everything the processor holds itself: its registers, the file it publishes them in,
the interrupt lines, what it waits for, its cycle counts, and, for those who look on, the map of
visited addresses and the journal. Memory is not part of it.

The reasons for which an instruction cannot be executed are a `Fault`. Each carries the address
at which the instruction started.
-/

namespace Machine6809

/-! ### Faults -/

/-- Why an instruction could not be executed. -/
inductive Fault where
  /-- The opcode has no row. -/
  | invalidOpcode (opcode pc : Word)
  /-- The instruction has no such mode. -/
  | invalidAddressingMode (opcode pc : Word)
  /-- The postbyte has no meaning. -/
  | invalidPostbyte (postbyte : Byte) (pc : Word)
  deriving DecidableEq, Repr, Inhabited

/-- A fault in words. -/
def Fault.message : Fault → String
  | .invalidOpcode opcode pc => s!"Illegal instruction {hex 2 opcode.toNat} at {hexWord pc}"
  | .invalidAddressingMode opcode pc =>
    s!"Invalid addressing mode for {hex 2 opcode.toNat} at {hexWord pc}"
  | .invalidPostbyte postbyte pc =>
    s!"Invalid indexed postbyte {hexByte postbyte} at {hexWord pc}"

/-! ### Visited addresses -/

/-- One mark for each address, eight to a byte. -/
structure VisitedMap where
  bytes : Vector Byte 0x2000

theorem shiftRight_three_lt (address : Word) : (address >>> 3).toNat < 0x2000 := by
  have eighth : (address >>> 3).toNat = address.toNat / 8 := by
    simp [Nat.shiftRight_eq_div_pow]
  have := address.toNat_lt
  omega

namespace VisitedMap

/-- The byte that has the mark of an address. -/
def place (address : Word) : Fin 0x2000 := ⟨(address >>> 3).toNat, shiftRight_three_lt address⟩

/-- The mark of an address within its byte. -/
def bit (address : Word) : Byte := 1 <<< (address &&& 7).toUInt8

/-- No address marked. -/
def empty : VisitedMap := { bytes := Vector.replicate 0x2000 0 }

/-- Mark an address. -/
def mark (map : VisitedMap) (address : Word) : VisitedMap :=
  let marked := map.bytes.get (place address) ||| bit address
  { bytes := map.bytes.set (place address).val marked (place address).isLt }

/-- The address is marked. -/
def isMarked (map : VisitedMap) (address : Word) : Bool :=
  map.bytes.get (place address) &&& bit address != 0

/-- The marked addresses in ascending order. -/
def toList (map : VisitedMap) : List Nat :=
  (List.range 0x10000).filter fun address => map.isMarked (UInt16.ofNat address)

end VisitedMap

/-! ### The processor -/

/-- The processor. -/
structure Cpu where
  registers : Registers
  /-- What observers see and post. -/
  file : RegisterFile
  lines : InterruptLines
  wait : WaitState
  /-- Cycles left before the instruction under way is over. -/
  countdown : Nat
  /-- Cycles used by all that was executed. -/
  totalCycles : Nat
  /-- The addresses at which instructions started, if they are recorded. -/
  visited : Option VisitedMap
  /-- Completed instructions leave a message. -/
  tracing : Bool
  journal : Journal

namespace Cpu

/-- A processor that has just been made. -/
def initial : Cpu :=
  { registers := Registers.zero, file := RegisterFile.initial, lines := InterruptLines.released,
    wait := .normal, countdown := 0, totalCycles := 0, visited := none, tracing := false,
    journal := #[] }

/-- Leave a message. -/
def note (cpu : Cpu) (message : Message) : Cpu := { cpu with journal := cpu.journal.push message }

/-- Post a write to the published registers. -/
def post (cpu : Cpu) (write : RegisterWrite) : Cpu := { cpu with file := cpu.file.write write }

/-- Take in one signal from memory. -/
def absorb (cpu : Cpu) : Signal → Cpu
  | .note message => cpu.note message
  | .post write => cpu.post write

/-- Write a register. A write to S arms NMI. -/
def setRegister (cpu : Cpu) (name : RegisterName) (value : Word) : Cpu :=
  { cpu with
    registers := cpu.registers.assign name value
    lines := if name = .s then { cpu.lines with nmiArmed := true } else cpu.lines }

/-- Replace the condition codes. -/
def setFlags (cpu : Cpu) (cc : Flags) : Cpu :=
  { cpu with registers := { cpu.registers with cc } }

/-- Take over the writes posted since the last time. A write to S arms NMI. -/
def adopt (cpu : Cpu) : Cpu :=
  { cpu with
    registers := cpu.file.posted.overlay cpu.registers
    file := cpu.file.take.2
    lines := if cpu.file.posted.s.isSome then { cpu.lines with nmiArmed := true } else cpu.lines }

/-- Publish the registers. -/
def publish (cpu : Cpu) : Cpu := { cpu with file := cpu.file.publish cpu.registers }

/-- Mark an address in the visited map, if there is one. -/
def visit (cpu : Cpu) (address : Word) : Cpu :=
  { cpu with visited := cpu.visited.map (·.mark address) }

/-- Take all marks off the visited map, if there is one. -/
def clearVisited (cpu : Cpu) : Cpu :=
  { cpu with visited := cpu.visited.map fun _ => VisitedMap.empty }

/-- Leave a message with the registers. -/
def dump (cpu : Cpu) : Cpu := cpu.note (.registers cpu.registers)

/-- Drive NMI. -/
def driveNmi (cpu : Cpu) (asserted : Bool) : Cpu :=
  { cpu with lines := cpu.lines.driveNmi asserted }

/-- Drive FIRQ. -/
def driveFirq (cpu : Cpu) (asserted : Bool) : Cpu :=
  { cpu with lines := { cpu.lines with firq := asserted } }

/-- Drive IRQ. -/
def driveIrq (cpu : Cpu) (asserted : Bool) : Cpu :=
  { cpu with lines := { cpu.lines with irq := asserted } }

/-- The processor with an empty journal, and the messages it held. -/
def drain (cpu : Cpu) : Journal × Cpu := (cpu.journal, { cpu with journal := #[] })

end Cpu

end Machine6809
