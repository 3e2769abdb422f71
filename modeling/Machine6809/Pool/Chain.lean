import Machine6809.Pool.Basic

/-!
# Chains

`Pool.chain` reads a chain from one of its nodes to its end as a list of positions; this list is
the view through which the operations on chains are understood. The walk is cut off after as many
steps as the pool has nodes, which no chain reaches without coming back on itself.
-/

namespace Machine6809

namespace Pool

variable {n : Nat}

/-- The positions met on the way along the `next` links, at most `fuel` of them. -/
def walk (p : Pool n) : (fuel : Nat) → Option (Fin n) → List (Fin n)
  | 0, _ => []
  | _, none => []
  | fuel + 1, some i => i :: p.walk fuel (p.node i).next

/-- The chain from a node to its end; empty if the node is free. -/
def chain (p : Pool n) (start : Fin n) : List (Fin n) :=
  if (p.node start).isAllocated then p.walk n (some start) else []

/-- The position names a chain: it is allocated and its own root. -/
def isHandle (p : Pool n) (i : Fin n) : Bool :=
  (p.node i).isAllocated && (p.node i).root == some i

/-- The chain handle that a word stands for. -/
def handle? (p : Pool n) (w : Word) : Option (Fin n) := (index? w).filter p.isHandle

/-- The root of a node's chain; a free node counts as its own root. -/
def rootOf (p : Pool n) (i : Fin n) : Fin n := (p.node i).root.getD i

/-- The last node of a node's chain. -/
def lastOf (p : Pool n) (i : Fin n) : Fin n := (p.chain i).getLastD i

/-- The node that `k` steps along the `next` links lead to. -/
def follow? (p : Pool n) : (k : Nat) → Fin n → Option (Fin n)
  | 0, i => some i
  | k + 1, i =>
    match (p.node i).next with
    | some j => p.follow? k j
    | none => none

/-- The payload of a node must not be written: the node itself or its root is protected. -/
def isProtected (p : Pool n) (i : Fin n) : Bool :=
  (p.node i).status.isProtected || (p.node (p.rootOf i)).status.isProtected

/-- The handles of all chains, in the order of the pool. -/
def handles (p : Pool n) : List (Fin n) := (List.finRange n).filter p.isHandle

end Pool

end Machine6809
