import Machine6809.Pool.Chain

/-!
# Splicing chains

Single nodes go into a chain and come out of it. When the first node of a chain changes, the new
one becomes the root of all its members, and the chain has a new handle. A node that goes in is
the first free one and takes over the page and read-only bits of the node it is put beside.
-/

namespace Machine6809

namespace Pool

variable {n : Nat}

/-- Give nodes a new root. -/
def setRoots (root : Fin n) : List (Fin n) → Pool n → Pool n
  | [], p => p
  | i :: rest, p => setRoots root rest (p.modifyNode i fun node => { node with root := some root })

/-- Make a node that has just become the first of its chain the root of all members. -/
def reroot (p : Pool n) (root : Fin n) : Pool n := setRoots root (p.chain root) p

/-- The node is the first of its chain. -/
def isFirst (p : Pool n) (i : Fin n) : Bool := (p.node i).prev.isNone

/-- The node is the only one of its chain. -/
def isAlone (p : Pool n) (i : Fin n) : Bool := (p.node i).prev.isNone && (p.node i).next.isNone

/-- Take a node out of its chain and free it. -/
def remove (p : Pool n) (i : Fin n) : Pool n :=
  let prev := (p.node i).prev
  let next := (p.node i).next
  let p := (p.unlinkFrom prev i).unlinkTo i next
  match prev, next with
  | some a, some b => (p.link a b).release i
  -- the next node becomes the root
  | none, some b => (p.release i).reroot b
  | _, none => p.release i

/-- Take a free node into the chain of another, beside which it is to be linked. -/
def claimBeside (p : Pool n) (new i : Fin n) : Pool n :=
  p.claim new (p.rootOf i) (p.node i).status.inherited

/-- Put a free node in front of another. -/
def insertBefore (p : Pool n) (new i : Fin n) : Pool n :=
  match (p.node i).prev with
  | some a => (((p.claimBeside new i).unlink a i).link a new).link new i
  -- the new node becomes the root
  | none => ((p.claimBeside new i).link new i).reroot new

/-- Put a free node behind another. -/
def insertAfter (p : Pool n) (new i : Fin n) : Pool n :=
  let next := (p.node i).next
  (((p.claimBeside new i).unlinkTo i next).linkTo new next).link i new

end Pool

end Machine6809
