import Machine6809.Memory.Access

/-!
# Plain memory

A run of bytes that starts at address zero. Addresses beyond its end read as the open bus and
ignore writes.
-/

namespace Machine6809

/-- Plain memory from address zero upward. -/
structure Ram where
  contents : Array Byte
  deriving DecidableEq, Repr, Inhabited

namespace Ram

/-- The largest size of a memory: every address has a byte. -/
def maxSize : Nat := 0x10000

/-- A memory of zero bytes. -/
def zeroed (size : Nat) : Ram := { contents := Array.replicate size 0 }

/-- The byte at an address. -/
def read (ram : Ram) (address : Word) : Byte := ram.contents.getD address.toNat openBus

/-- The memory with another byte at an address. -/
def write (ram : Ram) (address : Word) (value : Byte) : Ram :=
  { contents := ram.contents.setIfInBounds address.toNat value }

end Ram

instance : Memory Ram where
  load ram address := { value := ram.read address, memory := ram, signals := [] }
  store ram address value := { value := (), memory := ram.write address value, signals := [] }

end Machine6809
