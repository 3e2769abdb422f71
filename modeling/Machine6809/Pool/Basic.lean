import Machine6809.Pool.Counter
import Machine6809.Pool.Node

/-!
# The pool

A `Pool n` is a row of `n` nodes. Nodes that are linked form chains; a chain is named by its
handle, the position of its root. Three counters go along with the nodes: how many are free, how
many are allocated, and how many links join nodes that are not neighbours in the row (breaks).
`hint` is a position below which no node is free.

The operations here move a single node between free and allocated and set or cut a single link.
Each keeps its part of the counters, and setting or cutting a link sees to the break marks of both
nodes.
-/

namespace Machine6809

/-- A row of nodes with its counters. -/
structure Pool (n : Nat) where
  nodes : Vector (Node n) n
  /-- No node below this position is free. -/
  hint : Nat
  /-- Counts the free nodes. -/
  free : Counter
  /-- Counts the allocated nodes. -/
  allocated : Counter
  /-- Counts the links between nodes that are not neighbours. -/
  breaks : Counter

/-- Position `j` comes right after position `i`. -/
def adjacent {n : Nat} (i j : Fin n) : Bool := i.val + 1 == j.val

namespace Pool

variable {n : Nat}

/-- A pool of free nodes. -/
def empty : Pool n :=
  { nodes := Vector.replicate n Node.free, hint := 0, free := Counter.start n,
    allocated := Counter.start 0, breaks := Counter.start 0 }

/-- The number of free nodes, as it is counted. -/
def freeCount (p : Pool n) : Nat := p.free.value.toNat

/-- The number of allocated nodes, as it is counted. -/
def allocatedCount (p : Pool n) : Nat := p.allocated.value.toNat

/-- The number of breaks, as it is counted. -/
def breakCount (p : Pool n) : Nat := p.breaks.value.toNat

/-- The node at a position. -/
def node (p : Pool n) (i : Fin n) : Node n := p.nodes.get i

/-- The position that a word stands for, if the pool is that large. -/
def index? (w : Word) : Option (Fin n) := if h : w.toNat < n then some ⟨w.toNat, h⟩ else none

/-- Replace the node at a position. -/
def setNode (p : Pool n) (i : Fin n) (node : Node n) : Pool n :=
  { p with nodes := p.nodes.set i node i.isLt }

/-- Change the node at a position. -/
def modifyNode (p : Pool n) (i : Fin n) (f : Node n → Node n) : Pool n :=
  p.setNode i (f (p.node i))

/-! ### Free and allocated nodes -/

/-- The first free node at or after a position. -/
def firstFreeFrom (p : Pool n) (i : Nat) : Option (Fin n) :=
  if h : i < n then
    if (p.node ⟨i, h⟩).isAllocated then p.firstFreeFrom (i + 1) else some ⟨i, h⟩
  else none
termination_by n - i

/-- The first free node. -/
def firstFree (p : Pool n) : Option (Fin n) := p.firstFreeFrom p.hint

/-- Make a free node the member of the chain named by `root`, without links. -/
def claim (p : Pool n) (i root : Fin n) (template : NodeStatus) : Pool n :=
  let node : Node n :=
    { Node.free with status := { template with allocated := true }, root := some root }
  let p := p.setNode i node
  { p with
    hint := i.val + 1
    free := p.free.down
    allocated := p.allocated.up }

/-- Make an unlinked node free. -/
def release (p : Pool n) (i : Fin n) : Pool n :=
  let p := p.setNode i Node.free
  { p with
    hint := min p.hint i.val
    free := p.free.up
    allocated := p.allocated.down }

/-! ### Links -/

/-- A node linked to one that is not its neighbour in the row. -/
def Node.isBroken (i : Fin n) (node : Node n) : Bool :=
  node.prev.any (fun j => !adjacent j i) || node.next.any (fun j => !adjacent i j)

/-- Bring the break mark of a node up to date. -/
def refresh (p : Pool n) (i : Fin n) : Pool n :=
  p.modifyNode i fun node =>
    { node with
      status := { node.status with fragged := node.isAllocated && Node.isBroken i node } }

/-- Link two nodes. -/
def link (p : Pool n) (i j : Fin n) : Pool n :=
  let p := p.modifyNode i fun node => { node with next := some j }
  let p := p.modifyNode j fun node => { node with prev := some i }
  let p := { p with breaks := if adjacent i j then p.breaks else p.breaks.up }
  (p.refresh i).refresh j

/-- Cut the link between two nodes. -/
def unlink (p : Pool n) (i j : Fin n) : Pool n :=
  let p := p.modifyNode i fun node => { node with next := none }
  let p := p.modifyNode j fun node => { node with prev := none }
  let p := { p with breaks := if adjacent i j then p.breaks else p.breaks.downToZero }
  (p.refresh i).refresh j

/-- Set a link if there is a node on its left. -/
def linkFrom (p : Pool n) (i? : Option (Fin n)) (j : Fin n) : Pool n :=
  match i? with
  | some i => p.link i j
  | none => p

/-- Set a link if there is a node on its right. -/
def linkTo (p : Pool n) (i : Fin n) (j? : Option (Fin n)) : Pool n :=
  match j? with
  | some j => p.link i j
  | none => p

/-- Cut the link on the left of a node, if there is one. -/
def unlinkFrom (p : Pool n) (i? : Option (Fin n)) (j : Fin n) : Pool n :=
  match i? with
  | some i => p.unlink i j
  | none => p

/-- Cut the link on the right of a node, if there is one. -/
def unlinkTo (p : Pool n) (i : Fin n) (j? : Option (Fin n)) : Pool n :=
  match j? with
  | some j => p.unlink i j
  | none => p

end Pool

end Machine6809
