import Machine6809.Journal

/-!
# Memory as the processor sees it

The processor reaches memory byte by byte, through `Memory.load` and `Memory.store`. Both may
change the memory, since a device behind an address can react to being read, and both may leave
signals: messages for the journal, and writes posted to the processor's registers while the
access is going on. `Access` is the outcome of one access.
-/

namespace Machine6809

/-- What an access leaves besides its value. -/
inductive Signal where
  /-- A message for the journal. -/
  | note (message : Message)
  /-- A write posted to the processor's registers. -/
  | post (write : RegisterWrite)
  deriving DecidableEq, Repr

/-- The outcome of an access. -/
structure Access (μ α : Type) where
  /-- What was read. -/
  value : α
  /-- The memory afterwards. -/
  memory : μ
  /-- What the access left, in order. -/
  signals : List Signal

/-- A memory of 64K addresses. -/
class Memory (μ : Type) where
  /-- Read the byte at an address. -/
  load : μ → Word → Access μ Byte
  /-- Write a byte to an address. -/
  store : μ → Word → Byte → Access μ Unit

/-- The byte read where no memory answers. -/
def openBus : Byte := 0xCC

end Machine6809
