import Machine6809.Mmu.State

/-!
# Looking at the whole pool

An allocated node is written as a run of bytes: its position, its status, its links and its
payload. `Pool.fingerprint` hashes these runs for all allocated nodes, so that two pools can be
told apart at a glance. The hash is FNV-1a with 64 bits.
-/

namespace Machine6809

/-- The hash of no bytes. -/
def hashStart : UInt64 := 0xcbf29ce484222325

/-- Take one more byte into a hash. -/
def hashByte (h : UInt64) (b : Byte) : UInt64 := (h ^^^ b.toUInt64) * 0x100000001b3

namespace Pool

variable {n : Nat}

/-- The bytes of a link. -/
def linkBytes (link : Option (Fin n)) : List Byte :=
  let w := wordOfLink (link.map positionWord)
  [highByte w, lowByte w]

/-- The bytes that stand for a node. -/
def nodeBytes (p : Pool n) (i : Fin n) : List Byte :=
  let node := p.node i
  [highByte (positionWord i), lowByte (positionWord i), node.status.toByte] ++ linkBytes node.root
    ++ linkBytes node.prev ++ linkBytes node.next ++ node.payload.toList

/-- The allocated nodes in the order of the pool. -/
def allocatedNodes (p : Pool n) : List (Fin n) :=
  (List.finRange n).filter fun i => (p.node i).isAllocated

/-- The hash of all allocated nodes. -/
def fingerprint (p : Pool n) : UInt64 :=
  p.allocatedNodes.foldl (fun h i => (p.nodeBytes i).foldl hashByte h) hashStart

end Pool

end Machine6809
