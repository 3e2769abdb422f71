import Machine6809.Mmu.Run

/-!
# The register block

The guest reaches the unit through a block of 64 addresses. Its word registers take their high
byte first: that byte is latched, one latch for each word, and the word takes effect when its low
byte is written. Reading has no effect.

| offset | register | |
|---|---|---|
| `00` `02` | the chains shown in the windows | word |
| `04` `06` `08` | free, allocated and broken counts | word, read only |
| `0A` `0C` | arguments | word |
| `0E` | command | byte |
| `0F` | error | byte, read only |
| `10`–`2F` | payload of the node under the cursor | bytes |
| `30` `32` `34` | root, previous and next link of that node | word, read only |
| `36` | cursor | word |
| `38` | status of that node | byte, read only |
-/

namespace Machine6809

/-- The addresses of the register block. -/
def registerBlockSize : Nat := 64

/-- The registers of one word. -/
inductive WordRegister where
  /-- The chain that a window shows. -/
  | window (w : Nat)
  | freeCount | allocatedCount | breakCount
  | arg1 | arg2
  | root | prev | next
  | cursor
  deriving DecidableEq, Repr

/-- What lies at an offset of the block. -/
inductive RegisterByte where
  | command | error | status
  /-- A byte of the payload. -/
  | payload (i : Nat)
  /-- The high or the low byte of a word. -/
  | word (register : WordRegister) (low : Bool)
  /-- Nothing. -/
  | empty
  deriving DecidableEq, Repr

/-- The word register in the pair of offsets that starts at an even offset. -/
def WordRegister.ofOffset? : Nat → Option WordRegister
  | 0x00 => some (.window 0)
  | 0x02 => some (.window 1)
  | 0x04 => some .freeCount
  | 0x06 => some .allocatedCount
  | 0x08 => some .breakCount
  | 0x0A => some .arg1
  | 0x0C => some .arg2
  | 0x30 => some .root
  | 0x32 => some .prev
  | 0x34 => some .next
  | 0x36 => some .cursor
  | _ => none

/-- What lies at an offset. -/
def RegisterByte.ofOffset (offset : Nat) : RegisterByte :=
  if offset = 0x0E then .command
  else if offset = 0x0F then .error
  else if offset = 0x38 then .status
  else if 0x10 ≤ offset && offset < 0x30 then .payload (offset - 0x10)
  else
    match WordRegister.ofOffset? (offset - offset % 2) with
    | some register => .word register (offset % 2 == 1)
    | none => .empty

namespace Mmu

variable {n : Nat}

/-- The word of a link of the node under the cursor. -/
def linkWord (link : Option (Fin n)) : Word := wordOfLink (link.map positionWord)

/-- The value of a word register. -/
def readWord (m : Mmu n) : WordRegister → Word
  | .window w => linkWord (m.window? w)
  | .freeCount => UInt16.ofNat m.pool.freeCount
  | .allocatedCount => UInt16.ofNat m.pool.allocatedCount
  | .breakCount => UInt16.ofNat m.pool.breakCount
  | .arg1 => m.arg1
  | .arg2 => m.arg2
  | .root => linkWord m.cursorNode.root
  | .prev => linkWord m.cursorNode.prev
  | .next => linkWord m.cursorNode.next
  | .cursor => positionWord m.cursor

/-- The byte at an offset. -/
def readRegister (m : Mmu n) (offset : Word) : Byte :=
  match RegisterByte.ofOffset offset.toNat with
  | .command => m.command
  | .error => m.error.code
  | .status => m.cursorNode.status.toByte
  | .payload i => m.cursorNode.payload.getD i 0
  | .word register low =>
    if low then lowByte (m.readWord register) else highByte (m.readWord register)
  | .empty => 0

/-- Take over an action that does nothing when it fails, or record its error. -/
def settleOrFail (m : Mmu n) : Except MmuError (Mmu n) → Mmu n
  | .ok m => m
  | .error e => m.fail e

/-- Let a word take effect. `offset` is that of its high byte. -/
def writeWord (m : Mmu n) (register : WordRegister) (offset : Word) (value : Word) : Mmu n :=
  match register with
  | .window w => m.settleOrFail (m.select w (linkOfWord value))
  | .arg1 => { m with arg1 := value }
  | .arg2 => { m with arg2 := value }
  | .cursor => m.settleOrFail (m.setCursor value)
  | .freeCount | .allocatedCount | .breakCount | .root | .prev | .next =>
    m.note (.wordIgnored value offset)

/-- Write a byte of the payload under the cursor. -/
def writeCursorPayload (m : Mmu n) (i : Nat) (value : Byte) : Mmu n :=
  if m.cursorNode.isAllocated then (m.writeNode m.cursor i value).2 else m.fail .node

/-- Write a byte to an offset. -/
def writeRegister (m : Mmu n) (offset : Word) (value : Byte) : Mmu n :=
  match RegisterByte.ofOffset offset.toNat with
  | .command => m.run value
  | .payload i => m.writeCursorPayload i value
  | .word register low =>
    if low then
      -- both bytes of a word have the same latch
      let high := m.latch.getD (offset.toNat / 2) 0
      m.writeWord register (offset - 1) (wordOf high value)
    else { m with latch := m.latch.setIfInBounds (offset.toNat / 2) value }
  | .error | .status | .empty => m.note (.byteIgnored value offset)

end Mmu

end Machine6809
