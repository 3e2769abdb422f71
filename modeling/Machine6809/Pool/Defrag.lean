import Machine6809.Pool.Chain

/-!
# Closing breaks

Defragmentation goes through the chains in the order of their roots and along each chain. Where
a member does not lie right behind the one before it, and the place there is free, the member
moves into it. What moved is recorded, so that those who hold positions can follow.
-/

namespace Machine6809

/-- A node that went to another place. -/
structure Move (n : Nat) where
  source : Fin n
  target : Fin n
  deriving DecidableEq, Repr

/-- The place of a node after a move. -/
def Move.apply {n : Nat} (i : Fin n) (m : Move n) : Fin n := if i = m.source then m.target else i

namespace Pool

variable {n : Nat}

/-- Move a node that is no root to a free place and carry its links along. -/
def relocate (p : Pool n) (i target : Fin n) : Pool n :=
  let prev := (p.node i).prev
  let next := (p.node i).next
  -- links are cut here and tied again there, so that breaks are counted anew
  let p := (p.unlinkFrom prev i).unlinkTo i next
  let p := (p.setNode target (p.node i)).setNode i Node.free
  let p := { p with hint := min p.hint i.val }
  (p.linkFrom prev target).linkTo target next

/-- The place behind a node, if it exists and is free. -/
def freePlaceAfter? (p : Pool n) (i : Fin n) : Option (Fin n) :=
  if h : i.val + 1 < n then
    if (p.node ⟨i.val + 1, h⟩).isAllocated then none else some ⟨i.val + 1, h⟩
  else none

/-- Close breaks along the chain that goes on from `i`, for at most `fuel` members. The moves made
are put in front of those in `moves`. -/
def closeBreaks : (fuel : Nat) → Fin n → Pool n → List (Move n) → Pool n × List (Move n)
  | 0, _, p, moves => (p, moves)
  | fuel + 1, i, p, moves =>
    match (p.node i).next with
    | none => (p, moves)
    | some j =>
      match if adjacent i j then none else p.freePlaceAfter? i with
      | some place =>
        closeBreaks fuel place (p.relocate j place) ({ source := j, target := place } :: moves)
      | none => closeBreaks fuel j p moves

/-- Close breaks in the chain that has its root at a position, if there is one. -/
def closeBreaksAt (state : Pool n × List (Move n)) (i : Fin n) : Pool n × List (Move n) :=
  match state with
  | (p, moves) => if p.isHandle i then closeBreaks n i p moves else (p, moves)

/-- Close breaks in all chains. Gives the moves in the order in which they were made. -/
def defrag (p : Pool n) : Pool n × List (Move n) :=
  let (p, moves) := (List.finRange n).foldl closeBreaksAt (p, [])
  (p, moves.reverse)

end Pool

end Machine6809
