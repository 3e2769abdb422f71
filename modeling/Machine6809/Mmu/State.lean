import Machine6809.Journal
import Machine6809.Pool.Allocate

/-!
# The state of the memory management unit

The unit owns the pool and shows it to the guest in three ways: a cursor stands on one node, whose
payload and links can be looked at; two windows each show the payloads of a chain; and two
argument registers serve the commands. Positions in the pool appear as words, and the word
`$FFFF` stands for no position.

The unit is written for a pool of any size; that of the board has `poolNodes` nodes.
-/

namespace Machine6809

/-- The size of the board's pool: two megabytes in nodes of 32 bytes and their links. -/
def poolNodes : Nat := 52428

theorem poolNodes_pos : 0 < poolNodes := by decide

/-- The number of windows. -/
def windowCount : Nat := 2

/-- The nodes that a window shows. -/
def pageNodes : Nat := 256

/-- The bytes of a window. -/
def windowSize : Nat := pageNodes * payloadSize

/-- The word that stands for no position. -/
def noPosition : Word := 0xFFFF

/-- The word of a link. -/
def wordOfLink (link : Option Word) : Word := link.getD noPosition

/-- The link that a word stands for. -/
def linkOfWord (w : Word) : Option Word := if w = noPosition then none else some w

/-- A position as a word. -/
def positionWord {n : Nat} (i : Fin n) : Word := UInt16.ofNat i.val

/-- The memory management unit. -/
structure Mmu (n : Nat) where
  pool : Pool n
  /-- The chain that each window shows. -/
  windows : Vector (Option (Fin n)) windowCount
  arg1 : Word
  arg2 : Word
  /-- The code of the command that is under way, or zero. -/
  command : Byte
  /-- The outcome of the last command, or of a later access that failed. -/
  error : MmuError
  cursor : Fin n
  /-- The high byte of each word register, held until its low byte is written. -/
  latch : Vector Byte 32
  journal : Journal

/-- The error that an allocation ends with. -/
def Allocation.error {n : Nat} : Allocation n → MmuError
  | .built _ => .none
  | .badLength => .argument
  | .noneFree => .outOfMemory
  | .exhausted .. => .alloc

/-- The root of what was built, if anything was. -/
def Allocation.root? {n : Nat} : Allocation n → Option (Fin n)
  | .built root | .exhausted root _ => some root
  | .badLength | .noneFree => none

namespace Mmu

variable {n : Nat}

/-- A unit that has just been made. The cursor is on the first node, so there has to be one. -/
def initial (nonempty : 0 < n) : Mmu n :=
  { pool := Pool.empty, windows := Vector.replicate windowCount none, arg1 := 0, arg2 := 0,
    command := 0, error := .none, cursor := ⟨0, nonempty⟩, latch := Vector.replicate 32 0,
    journal := #[] }

/-- Free every node and clear all registers. The messages stay. -/
def reset (m : Mmu n) : Mmu n := { initial (Fin.pos m.cursor) with journal := m.journal }

/-- Leave a message. -/
def note (m : Mmu n) (message : Message) : Mmu n := { m with journal := m.journal.push message }

/-- Set the error register. -/
def fail (m : Mmu n) (e : MmuError) : Mmu n := { m with error := e }.note (.mmuError e)

/-- The unit with an empty journal, and the messages it held. -/
def drain (m : Mmu n) : Journal × Mmu n := (m.journal, { m with journal := #[] })

/-- Act on the pool. -/
@[inline] def onPool {α : Type} (m : Mmu n) (f : Pool n → α × Pool n) : α × Mmu n :=
  match m with
  | { pool, windows, arg1, arg2, command, error, cursor, latch, journal } =>
    let (a, pool) := f pool
    (a, { pool, windows, arg1, arg2, command, error, cursor, latch, journal })

/-- Change the pool. -/
@[inline] def modifyPool (m : Mmu n) (f : Pool n → Pool n) : Mmu n :=
  (m.onPool fun pool => ((), f pool)).2

/-! ### Cursor -/

/-- Put the cursor on a position. -/
def setCursor (m : Mmu n) (position : Word) : Except MmuError (Mmu n) :=
  match Pool.index? position with
  | some i => .ok { m with cursor := i }
  | none => .error .index

/-- The node under the cursor. -/
def cursorNode (m : Mmu n) : Node n := m.pool.node m.cursor

/-! ### Windows -/

/-- The chain that a window shows. -/
def window? (m : Mmu n) (w : Nat) : Option (Fin n) := (m.windows[w]?).join

/-- Some window shows the chain. -/
def isMapped (m : Mmu n) (handle : Fin n) : Bool := m.windows.any (· == some handle)

/-- Show a chain in a window, or nothing. Only the root of a chain can be shown. -/
def select (m : Mmu n) (w : Nat) (handle : Option Word) : Except MmuError (Mmu n) :=
  if h : w < windowCount then
    match handle with
    | none => .ok { m with windows := m.windows.set w none }
    | some position =>
      match m.pool.handle? position with
      | some i => .ok { m with windows := m.windows.set w (some i) }
      | none => .error .bank
  else .error .bank

/-- Windows that show a chain under its old handle show it under the new one, which is also put
into the first argument register. -/
def rename (m : Mmu n) (old new : Fin n) : Mmu n :=
  { m with
    arg1 := positionWord new
    windows := m.windows.map fun w => if w = some old then some new else w }

/-! ### Chains -/

/-- The number of nodes of the chain with a given handle. -/
def chainLength (m : Mmu n) (position : Word) : Except MmuError Nat :=
  match m.pool.handle? position with
  | some i => .ok (m.pool.chain i).length
  | none => .error .handle

/-- Build a chain. An allocation that ends early leaves a message. -/
def allocate (m : Mmu n) (count : Nat) (template : NodeStatus) : Allocation n × Mmu n :=
  let (outcome, m) := m.onPool (·.allocate count template)
  match outcome with
  | .exhausted _ built => (outcome, m.note (.poolExhausted built count))
  | _ => (outcome, m)

/-- Free the chain with a given handle, unless a window shows it, and count its nodes. -/
def free (m : Mmu n) (position : Word) : Except MmuError Nat × Mmu n :=
  match m.pool.handle? position with
  | none => (.error .handle, m)
  | some i =>
    if m.isMapped i then (.error .mapping, m)
    else
      let (count, m) := m.onPool (·.releaseChain i)
      (.ok count, m)

/-! ### Payload -/

/-- Write a byte of a node's payload, and say whether it was written. -/
def writeNode (m : Mmu n) (i : Fin n) (offset : Nat) (value : Byte) : Bool × Mmu n :=
  if m.pool.isProtected i then (false, m.note (.protectedWrite (positionWord i)))
  else
    let offset : Fin payloadSize := ⟨offset % payloadSize, Nat.mod_lt _ (by decide)⟩
    let m := m.modifyPool (·.modifyNode i fun node =>
      { node with payload := node.payload.set offset value })
    (true, m)

/-- Write a byte of the payload at a position that may lie outside the pool. -/
def writePayload (m : Mmu n) (position : Word) (offset : Nat) (value : Byte) : Bool × Mmu n :=
  match Pool.index? position with
  | some i => m.writeNode i offset value
  | none => (false, m.fail .index)

end Mmu

end Machine6809
