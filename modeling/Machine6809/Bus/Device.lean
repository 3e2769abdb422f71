import Machine6809.Memory.Ram
import Machine6809.Mmu.RegisterBlock
import Machine6809.Mmu.Window

/-!
# Devices

A device answers for a range of addresses. RAM and ROM have bytes of their own; the register block
and the windows stand for the memory management unit; hardware has no bytes and is only heard of.
A device does not know where it was put: it is asked about offsets from its first address.
-/

namespace Machine6809

/-- A piece of hardware without bytes of its own. -/
structure Hardware where
  name : String
  size : Nat
  /-- It reports in the journal whatever the bus does to it. -/
  reports : Bool
  deriving DecidableEq, Repr, Inhabited

/-- What can be attached to the bus. -/
inductive Device where
  /-- Memory that the processor can read and write. -/
  | ram (name : String) (contents : Array Byte)
  /-- Memory that the processor can only read. -/
  | rom (name : String) (contents : Array Byte)
  /-- The registers of the memory management unit. -/
  | registers
  /-- The windows of the memory management unit, and the bytes seen in one that shows nothing. -/
  | windows (defaults : Array Byte)
  | hardware (h : Hardware)
  deriving DecidableEq, Repr, Inhabited

/-- The kinds of device. -/
inductive DeviceKind where
  | ram | rom | mmu | banked | hardware
  deriving DecidableEq, Repr, Inhabited

/-- The name of a kind. -/
def DeviceKind.name : DeviceKind → String
  | .ram => "Ram"
  | .rom => "Rom"
  | .mmu => "Mmu"
  | .banked => "Banked"
  | .hardware => "Hardware"

/-- The byte that hardware gives: one that reports gives the low byte of the offset, another a
pattern made from the address. -/
def Hardware.answer (h : Hardware) (address offset : Word) : Byte :=
  if h.reports then lowByte offset else lowByte address ^^^ 0xA5

namespace Device

/-- RAM of zero bytes; no device if it would be larger than the address space. -/
def ram? (name : String) (size : Nat) : Option Device :=
  if size ≤ Ram.maxSize then some (.ram name (Array.replicate size 0)) else none

/-- ROM of bytes with all bits set; no device if it would be larger than the address space. -/
def rom? (name : String) (size : Nat) : Option Device :=
  if size ≤ Ram.maxSize then some (.rom name (Array.replicate size 0xFF)) else none

/-- Windows that show nothing, with zero bytes behind them. -/
def blankWindows : Device := .windows (Array.replicate (windowCount * windowSize) 0)

/-- The name in messages. -/
def name : Device → String
  | .ram name _ => name
  | .rom name _ => name
  | .registers => "mmu"
  | .windows _ => "banked"
  | .hardware h => h.name

/-- The kind of a device. -/
def kind : Device → DeviceKind
  | .ram .. => .ram
  | .rom .. => .rom
  | .registers => .mmu
  | .windows _ => .banked
  | .hardware _ => .hardware

/-- The addresses that a device asks for. -/
def size : Device → Nat
  | .ram _ contents => contents.size
  | .rom _ contents => contents.size
  | .registers => registerBlockSize
  | .windows _ => windowCount * windowSize
  | .hardware h => h.size

/-- The bytes of a device that has its own. -/
def contents? : Device → Option (Array Byte)
  | .ram _ contents => some contents
  | .rom _ contents => some contents
  | _ => none

/-- Put a byte into a device that has its own. -/
def poke (device : Device) (offset : Nat) (value : Byte) : Device :=
  match device with
  | .ram name contents => .ram name (contents.setIfInBounds offset value)
  | .rom name contents => .rom name (contents.setIfInBounds offset value)
  | other => other

/-- Put a byte behind the windows. -/
def pokeDefault (device : Device) (offset : Nat) (value : Byte) : Device :=
  match device with
  | .windows defaults => .windows (defaults.setIfInBounds offset value)
  | other => other

end Device

end Machine6809
