import Machine6809.Mmu.Run

/-!
# Self tests

Each command has a test that runs it on a fresh unit and looks at the outcome.
-/

namespace Machine6809

namespace SelfTest

variable {n : Nat}

/-- Run a command and say whether it ended with the given error. -/
def expect (m : Mmu n) (command : Command) (e : MmuError) : Bool × Mmu n :=
  let m := m.run command.code
  (m.error == e, m)

/-- Build a plain chain, put the cursor on its member number `place`, and give its handle. -/
def withChain (length place : Nat) (m : Mmu n) : Option (Fin n × Mmu n) :=
  match expect { m with arg1 := UInt16.ofNat length, arg2 := 0 } .alloc .none with
  | (false, _) => none
  | (true, m) =>
    match m.pool.handle? m.arg1 with
    | none => none
    | some handle => (m.pool.chain handle)[place]?.map fun i => (handle, { m with cursor := i })

/-- Build a chain, run a command on it, and look at the outcome. -/
def onChain (fresh : Mmu n) (length place : Nat) (command : Command)
    (check : Fin n → Mmu n → Bool) : Bool :=
  match withChain length place fresh with
  | none => false
  | some (handle, m) =>
    match expect m command .none with
    | (ok, m) => ok && check handle m

/-- The positions of the chain that a word names. -/
def chainOf (m : Mmu n) (handle : Word) : List Nat :=
  match m.pool.handle? handle with
  | some i => (m.pool.chain i).map Fin.val
  | none => []

/-- No node is allocated. -/
def isUnused (m : Mmu n) : Bool := m.pool.freeCount == n && m.pool.allocatedCount == 0

/-- Payload can be written and is then read back. -/
def takesPayload (m : Mmu n) (handle : Fin n) : Bool :=
  let (written, m) := m.writeNode handle 0 0x55
  written && (m.pool.node handle).payload.getD 0 0 == 0x55

/-- A page is freed as a page, and a plain chain is not. -/
def pageFree (fresh : Mmu n) : Bool :=
  match expect fresh .pageAlloc .none with
  | (false, _) => false
  | (true, m) =>
    let page := m.arg1
    match withChain 1 0 m with
    | none => false
    | some (_, m) =>
      let (refused, m) := expect m .pageFree .page
      let (freed, m) := expect { m with arg1 := page } .pageFree .none
      refused && freed && m.pool.allocatedCount == 1

/-- A gap left by a freed chain is closed. -/
def defrag (fresh : Mmu n) : Bool :=
  match withChain 1 0 fresh with
  | none => false
  | some (first, m) =>
    match withChain 1 0 m with
    | none => false
    | some (second, m) =>
      let (inserted, m) := expect { m with cursor := first } .insertAfter .none
      let broken := m.pool.breakCount == 1
      let (freed, m) := expect { m with arg1 := positionWord second } .free .none
      let (moved, m) := expect m .defrag .none
      inserted && broken && freed && moved && m.arg1 == 1 && m.pool.breakCount == 0
        && (m.pool.chain first).map Fin.val == [first.val, first.val + 1]

/-- The test of a command on a fresh unit. -/
def check (fresh : Mmu n) : Command → Bool
  | .nop =>
    let (ok, m) := expect fresh .nop .none
    ok && isUnused m
  | .pageAlloc =>
    let (ok, m) := expect fresh .pageAlloc .none
    ok && (chainOf m m.arg1).length == pageNodes
  | .pageFree => pageFree fresh
  | .alloc => onChain fresh 5 0 .nop fun h m =>
    (m.pool.chain h).length == 5 && m.pool.allocatedCount == 5
  | .free => onChain fresh 5 0 .free fun _ m => isUnused m
  | .loadRoot => onChain fresh 3 2 .loadRoot fun h m => m.cursor == h
  | .loadNext => onChain fresh 2 0 .loadNext fun h m =>
    m.cursor.val == h.val + 1 && (expect m .loadNext .node).1
  | .loadPrev => onChain fresh 2 1 .loadPrev fun h m =>
    m.cursor == h && (expect m .loadPrev .node).1
  | .loadLast => onChain fresh 4 0 .loadLast fun h m => m.cursor.val == h.val + 3
  | .deleteNode => onChain fresh 3 1 .deleteNode fun h m =>
    (m.pool.chain h).length == 2 && m.cursor.val == h.val + 2
  | .insertBefore => onChain fresh 2 0 .insertBefore fun h m =>
    m.arg1 == positionWord m.cursor && (chainOf m m.arg1).length == 3
      && (chainOf m m.arg1)[1]? == some h.val
  | .insertAfter => onChain fresh 2 0 .insertAfter fun h m =>
    (m.pool.chain h).length == 3 && (m.pool.chain h)[1]? == some m.cursor
  | .pushBack => onChain fresh 2 0 .pushBack fun h m =>
    (m.pool.chain h).length == 3 && (m.pool.chain h).getLast? == some m.cursor
  | .pushFront => onChain fresh 2 1 .pushFront fun h m =>
    m.arg1 == positionWord m.cursor && (chainOf m m.arg1)[1]? == some h.val
  | .popBack => onChain fresh 3 0 .popBack fun h m =>
    (m.pool.chain h).length == 2 && m.pool.allocatedCount == 2
  | .popFront => onChain fresh 3 2 .popFront fun h m =>
    m.arg1.toNat == h.val + 1 && (chainOf m m.arg1).length == 2 && !m.pool.isHandle h
  | .lockNode => onChain fresh 1 0 .lockNode fun h m => !takesPayload m h
  | .unlockNode => onChain fresh 1 0 .lockNode fun h m =>
    let (ok, m) := expect m .unlockNode .none
    ok && takesPayload m h
  | .defrag => defrag fresh
  | .reset => onChain fresh 10 0 .reset fun _ m => isUnused m
  | .size => onChain fresh 7 0 .nop fun h m =>
    let (ok, m) := expect { m with arg1 := positionWord h } .size .none
    ok && m.arg2 == 7

/-- The names of all commands, and whether each passes its test. -/
def results (fresh : Mmu n) : List (String × Bool) :=
  Command.list.map fun command => (command.name, check fresh command)

end SelfTest

end Machine6809
