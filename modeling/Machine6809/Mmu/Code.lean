import Machine6809.Text.Hex

/-!
# Codes of the memory management unit

The guest speaks to the unit in single bytes: it writes a command code and reads an error code.
`MmuError` and `Command` list the codes, each with its number and its name; a byte that is no
command's number is an unknown command.
-/

namespace Machine6809

/-- What the error register can hold, in the order of the codes. -/
inductive MmuError where
  | none | outOfMemory | alloc | free | mapping | unmapping | invalid | argument | handle
  | node | page | bank | address | offset | length | index | unknown
  deriving DecidableEq, Repr, Inhabited

namespace MmuError

/-- Every error, in the order of the codes. -/
def list : List MmuError :=
  [.none, .outOfMemory, .alloc, .free, .mapping, .unmapping, .invalid, .argument, .handle,
    .node, .page, .bank, .address, .offset, .length, .index, .unknown]

/-- The number in the error register. -/
def code : MmuError → Byte
  | .none => 0
  | .outOfMemory => 1
  | .alloc => 2
  | .free => 3
  | .mapping => 4
  | .unmapping => 5
  | .invalid => 6
  | .argument => 7
  | .handle => 8
  | .node => 9
  | .page => 10
  | .bank => 11
  | .address => 12
  | .offset => 13
  | .length => 14
  | .index => 15
  | .unknown => 16

/-- The name of an error. -/
def name : MmuError → String
  | .none => "NONE"
  | .outOfMemory => "OUT_OF_MEM"
  | .alloc => "ALLOC"
  | .free => "FREE"
  | .mapping => "MAPPING"
  | .unmapping => "UNMAPPING"
  | .invalid => "INVALID"
  | .argument => "ARGUMENT"
  | .handle => "HANDLE"
  | .node => "NODE"
  | .page => "PAGE"
  | .bank => "BANK"
  | .address => "ADDRESS"
  | .offset => "OFFSET"
  | .length => "LENGTH"
  | .index => "INDEX"
  | .unknown => "UNKNOWN"

/-- An error as its name and its number. -/
def text (e : MmuError) : String := s!"{e.name} ({hexByte e.code})"

end MmuError

/-- The commands of the unit. -/
inductive Command where
  | nop
  /-- Allocate a chain as long as a page. -/
  | pageAlloc
  /-- Free a chain that was allocated as a page. -/
  | pageFree
  | alloc
  | free
  /-- Move the cursor to the root of its chain. -/
  | loadRoot
  | loadNext
  | loadPrev
  | loadLast
  | deleteNode
  | insertBefore
  | insertAfter
  | pushBack
  | pushFront
  | popBack
  | popFront
  | lockNode
  | unlockNode
  | defrag
  | reset
  /-- The length of a chain. -/
  | size
  deriving DecidableEq, Repr, Inhabited

namespace Command

/-- Every command, in the order of the codes. -/
def list : List Command :=
  [.nop, .pageAlloc, .pageFree, .alloc, .free, .loadRoot, .loadNext, .loadPrev, .loadLast,
    .deleteNode, .insertBefore, .insertAfter, .pushBack, .pushFront, .popBack, .popFront,
    .lockNode, .unlockNode, .defrag, .reset, .size]

/-- The number of a command. -/
def code : Command → Byte
  | .nop => 0x00
  | .pageAlloc => 0x01
  | .pageFree => 0x02
  | .alloc => 0x03
  | .free => 0x04
  | .loadRoot => 0x05
  | .loadNext => 0x06
  | .loadPrev => 0x07
  | .loadLast => 0x08
  | .deleteNode => 0x09
  | .insertBefore => 0x0A
  | .insertAfter => 0x0B
  | .pushBack => 0x0C
  | .pushFront => 0x0D
  | .popBack => 0x0E
  | .popFront => 0x0F
  | .lockNode => 0x10
  | .unlockNode => 0x11
  | .defrag => 0x12
  | .reset => 0x13
  | .size => 0x14

/-- The name of a command. -/
def name : Command → String
  | .nop => "NOP"
  | .pageAlloc => "PG_ALLOC"
  | .pageFree => "PG_FREE"
  | .alloc => "ALLOC"
  | .free => "FREE"
  | .loadRoot => "LOAD_ROOT"
  | .loadNext => "LOAD_NEXT"
  | .loadPrev => "LOAD_PREV"
  | .loadLast => "LOAD_LAST"
  | .deleteNode => "DEL_NODE"
  | .insertBefore => "INS_BEFORE"
  | .insertAfter => "INS_AFTER"
  | .pushBack => "PUSH_BACK"
  | .pushFront => "PUSH_FRONT"
  | .popBack => "POP_BACK"
  | .popFront => "POP_FRONT"
  | .lockNode => "LOCK_NODE"
  | .unlockNode => "UNLOCK_NODE"
  | .defrag => "DEFRAG"
  | .reset => "RESET"
  | .size => "SIZE"

/-- The command with a given number. -/
def ofCode? (b : Byte) : Option Command := list.find? (·.code == b)

end Command

end Machine6809
