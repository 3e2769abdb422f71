import Machine6809.Word

/-!
# Nodes of the pool

A node holds 32 bytes of payload, a status and three links: to the root of its chain, to the node
before it and to the node after it. Links are positions in a pool of `n` nodes, so that a link
out of the pool cannot be written down.
-/

namespace Machine6809

/-- The bytes of payload in a node. -/
def payloadSize : Nat := 32

/-- The status of a node, one entry for each bit. -/
structure NodeStatus where
  /-- The node belongs to a chain. -/
  allocated : Bool
  /-- The chain was allocated as a page. -/
  paged : Bool
  /-- The payload must not be written. -/
  readOnly : Bool
  /-- A neighbour in the chain is no neighbour in the pool. -/
  fragged : Bool
  /-- The payload must not be written for the time being. -/
  locked : Bool
  /-- A mark without meaning of its own. -/
  error : Bool
  deriving DecidableEq, Repr, Inhabited

namespace NodeStatus

/-- No bit set. -/
def none : NodeStatus :=
  { allocated := false, paged := false, readOnly := false, fragged := false, locked := false,
    error := false }

/-- The status as a byte. -/
def toByte (s : NodeStatus) : Byte :=
  UInt8.ofNat (s.allocated.toNat + 2 * s.paged.toNat + 4 * s.readOnly.toNat + 8 * s.fragged.toNat
    + 16 * s.locked.toNat + 128 * s.error.toNat)

/-- The status read from a byte; bits without a meaning are dropped. -/
def ofByte (b : Byte) : NodeStatus :=
  { allocated := bitOf b 0, paged := bitOf b 1, readOnly := bitOf b 2, fragged := bitOf b 3,
    locked := bitOf b 4, error := bitOf b 7 }

/-- The bits that a new node takes over from a status asked for. -/
def requested (s : NodeStatus) : NodeStatus :=
  { none with paged := s.paged, readOnly := s.readOnly, locked := s.locked }

/-- The bits that a new node takes over from the neighbour it is inserted beside. -/
def inherited (s : NodeStatus) : NodeStatus :=
  { none with paged := s.paged, readOnly := s.readOnly }

/-- The payload must not be written. -/
def isProtected (s : NodeStatus) : Bool := s.readOnly || s.locked

end NodeStatus

/-- A node of a pool of `n` nodes. -/
structure Node (n : Nat) where
  status : NodeStatus
  payload : Vector Byte payloadSize
  /-- The first node of the chain. -/
  root : Option (Fin n)
  prev : Option (Fin n)
  next : Option (Fin n)
  deriving DecidableEq

namespace Node

variable {n : Nat}

/-- The payload of a new node. -/
def blank : Vector Byte payloadSize := Vector.replicate payloadSize 0

/-- A node that belongs to no chain. -/
def free : Node n :=
  { status := NodeStatus.none, payload := blank, root := none, prev := none, next := none }

instance : Inhabited (Node n) := ⟨free⟩

/-- The node belongs to a chain. -/
def isAllocated (node : Node n) : Bool := node.status.allocated

end Node

end Machine6809
