import Machine6809.Pool.Chain

/-!
# Allocating and freeing chains

A new chain takes the first free nodes in the order of the pool, whether they are neighbours or
not. If the pool runs out the chain built so far stays, and the caller is told its root. Freeing
a chain walks it from the root and leaves each node as it was before it was ever used.
-/

namespace Machine6809

/-- The longest chain that can be allocated at once. -/
def maxChain : Nat := 256

/-- The outcome of an allocation. -/
inductive Allocation (n : Nat) where
  /-- The chain with this root is as long as was asked. -/
  | built (root : Fin n)
  /-- The length asked for is zero or too large. -/
  | badLength
  /-- No node was free. -/
  | noneFree
  /-- The pool ran out after this many nodes. -/
  | exhausted (root : Fin n) (count : Nat)
  deriving DecidableEq, Repr

namespace Pool

variable {n : Nat}

/-- Append up to `count` nodes after `tail` and say how many are lacking. -/
def extend (root : Fin n) (template : NodeStatus) :
    (count : Nat) → (tail : Fin n) → Pool n → Nat × Pool n
  | 0, _, p => (0, p)
  | count + 1, tail, p =>
    match p.firstFree with
    | none => (count + 1, p)
    | some i => extend root template count i ((p.claim i root template).link tail i)

/-- Build a chain of `count` nodes. -/
def allocate (p : Pool n) (count : Nat) (template : NodeStatus) : Allocation n × Pool n :=
  if count = 0 || maxChain < count then (.badLength, p)
  else
    match p.firstFree with
    | none => (.noneFree, p)
    | some root =>
      let (lacking, p) := extend root template (count - 1) root (p.claim root root template)
      (if lacking = 0 then .built root else .exhausted root (count - lacking), p)

/-- Free the nodes from `i` to the end of its chain, at most `fuel` of them, and count them. -/
def releaseFrom : (fuel : Nat) → Fin n → Pool n → Nat × Pool n
  | 0, _, p => (0, p)
  | fuel + 1, i, p =>
    match (p.node i).next with
    | none => (1, p.release i)
    | some j =>
      let (count, p) := releaseFrom fuel j ((p.unlink i j).release i)
      (count + 1, p)

/-- Free the chain with the given root and count its nodes. -/
def releaseChain (p : Pool n) (root : Fin n) : Nat × Pool n := releaseFrom n root p

end Pool

end Machine6809
