import Machine6809.Mmu.State
import Machine6809.Pool.Defrag
import Machine6809.Pool.Splice

/-!
# Running commands

A command gives an error code, which is `none` for success, and the unit afterwards. Most commands
that fail leave the unit as it was. Three kinds do something before they fail: an allocation that
exhausts the pool keeps what it built, and a push or a pop first moves the cursor to the end of
the chain it works on. `Mmu.run` runs the command that a byte stands for and puts its outcome into
the error register. The command register holds the byte while the command is under way and is clear
otherwise.
-/

namespace Machine6809

namespace Mmu

variable {n : Nat}

/-- Do a second action after a first, if that succeeds. What the first did stays if the second
fails. -/
def inTurn (m : Mmu n) (first second : Mmu n → MmuError × Mmu n) : MmuError × Mmu n :=
  match first m with
  | (.none, m) => second m
  | (e, m) => (e, m)

/-- Go on with the position under the cursor, if its node is allocated. -/
@[inline] def atCursor (m : Mmu n) (f : Fin n → Mmu n → MmuError × Mmu n) : MmuError × Mmu n :=
  if m.cursorNode.isAllocated then f m.cursor m else (.node, m)

/-! ### Moving the cursor -/

/-- Put the cursor on the root of its chain. -/
def toRoot (m : Mmu n) : MmuError × Mmu n :=
  m.atCursor fun i m => (.none, { m with cursor := m.pool.rootOf i })

/-- Put the cursor on the last node of its chain. -/
def toLast (m : Mmu n) : MmuError × Mmu n :=
  m.atCursor fun i m => (.none, { m with cursor := m.pool.lastOf i })

/-- Follow a link from the cursor. -/
def along (m : Mmu n) (link : Node n → Option (Fin n)) : MmuError × Mmu n :=
  m.atCursor fun i m =>
    match link (m.pool.node i) with
    | some j => (.none, { m with cursor := j })
    | none => (.node, m)

/-! ### Allocating and freeing -/

/-- Build a chain and put its handle into the first argument register, also when the pool runs
out. -/
def allocateChain (m : Mmu n) (count : Nat) (template : NodeStatus) : MmuError × Mmu n :=
  let (outcome, m) := m.allocate count template
  match outcome.root? with
  | some root => (outcome.error, { m with arg1 := positionWord root })
  | none => (outcome.error, m)

/-- Free the chain in the first argument register. -/
def freeChain (m : Mmu n) : MmuError × Mmu n :=
  match m.free m.arg1 with
  | (.ok _, m) => (.none, m)
  | (.error e, m) => (e, m)

/-- Free the chain in the first argument register if it is a page. -/
def freePage (m : Mmu n) : MmuError × Mmu n :=
  match m.pool.handle? m.arg1 with
  | none => (.free, m)
  | some i => if (m.pool.node i).status.paged then m.freeChain else (.page, m)

/-! ### Splicing -/

/-- Take the node under the cursor out of its chain. The cursor goes on to the next node, back to
the one before, or stays. The only node of a chain that a window shows has to stay too. -/
def deleteNode (m : Mmu n) : MmuError × Mmu n :=
  m.atCursor fun i m =>
    let prev := (m.pool.node i).prev
    let next := (m.pool.node i).next
    let root := m.pool.rootOf i
    if m.pool.isAlone i && m.isMapped root then (.mapping, m)
    else
      let m := { m.modifyPool (·.remove i) with cursor := (next.or prev).getD i }
      match prev, next with
      -- the root has gone, and windows show the chain by its new one
      | none, some j => (.none, m.rename root j)
      | _, _ => (.none, m)

/-- Put a new node in front of the cursor, and the cursor on it. -/
def insertBefore (m : Mmu n) : MmuError × Mmu n :=
  m.atCursor fun i m =>
    let root := m.pool.rootOf i
    let first := m.pool.isFirst i
    match m.pool.firstFree with
    | none => (.outOfMemory, m)
    | some new =>
      let m := { m.modifyPool (·.insertBefore new i) with cursor := new }
      -- likewise if the new node has become the root
      (.none, if first then m.rename root new else m)

/-- Put a new node behind the cursor, and the cursor on it. -/
def insertAfter (m : Mmu n) : MmuError × Mmu n :=
  m.atCursor fun i m =>
    match m.pool.firstFree with
    | none => (.outOfMemory, m)
    | some new => (.none, { m.modifyPool (·.insertAfter new i) with cursor := new })

/-! ### The rest -/

/-- Set or clear the lock of the node under the cursor. -/
def setLock (m : Mmu n) (locked : Bool) : MmuError × Mmu n :=
  m.atCursor fun i m =>
    (.none, m.modifyPool (·.modifyNode i fun node =>
      { node with status := { node.status with locked } }))

/-- Close breaks. The first argument register gets the number of moves, and the cursor goes along
with its node. -/
def defrag (m : Mmu n) : Mmu n :=
  let (moves, m) := m.onPool fun pool =>
    let (pool, moves) := pool.defrag
    (moves, pool)
  { m with arg1 := UInt16.ofNat moves.length, cursor := moves.foldl Move.apply m.cursor }

/-- Put the length of the chain in the first argument register into the second. -/
def measure (m : Mmu n) : MmuError × Mmu n :=
  match m.chainLength m.arg1 with
  | .ok length => (.none, { m with arg2 := UInt16.ofNat length })
  | .error e => (e, m)

/-- Do what a command says. -/
def perform (m : Mmu n) : Command → MmuError × Mmu n
  | .nop => (.none, m)
  | .pageAlloc => m.allocateChain pageNodes { NodeStatus.none with paged := true }
  | .pageFree => m.freePage
  | .alloc => m.allocateChain m.arg1.toNat (NodeStatus.ofByte (lowByte m.arg2)).requested
  | .free => m.freeChain
  | .loadRoot => m.toRoot
  | .loadNext => m.along Node.next
  | .loadPrev => m.along Node.prev
  | .loadLast => m.toLast
  | .deleteNode => m.deleteNode
  | .insertBefore => m.insertBefore
  | .insertAfter => m.insertAfter
  | .pushBack => m.inTurn toLast insertAfter
  | .pushFront => m.inTurn toRoot insertBefore
  | .popBack => m.inTurn toLast deleteNode
  | .popFront => m.inTurn toRoot deleteNode
  | .lockNode => m.setLock true
  | .unlockNode => m.setLock false
  | .defrag => (.none, m.defrag)
  | .reset => (.none, m.reset)
  | .size => m.measure

/-- Put a code into the command register. -/
def setCommand (m : Mmu n) (code : Byte) : Mmu n := { m with command := code }

/-- Get ready to run a command: its code is in the command register, and a message is left. -/
def announce (m : Mmu n) (command : Command) : Mmu n :=
  (m.setCommand command.code).note
    (.commandStarted command m.arg1 m.arg2 (positionWord m.cursor))

/-- Clear the command register and record the outcome of the command in the error register. -/
def conclude : MmuError × Mmu n → Mmu n
  | (.none, m) => { m.setCommand 0 with error := .none }
  | (e, m) => (m.setCommand 0).fail e

/-- Run the command with a given code. The command register holds the code while the command is
under way. Afterwards it is clear, and the outcome is in the error register. -/
def run (m : Mmu n) (code : Byte) : Mmu n :=
  conclude <|
    match Command.ofCode? code with
    | none => (.invalid, m.setCommand code)
    | some command => (m.announce command).perform command

end Mmu

end Machine6809
