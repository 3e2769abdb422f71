import Machine6809.Pool.Allocate
import Machine6809.Pool.Defrag
import Machine6809.Pool.Splice
import Mathlib.Tactic.SplitIfs

/-!
# What the basic operations do to the nodes

For each operation that touches a node or two, what every node of the pool holds afterwards. The
two links, the root and the content of a node are looked at one by one. The content is what a node
means to its chain: its status apart from the break mark, and its payload. Setting and cutting
links never changes contents or roots.

The break mark is a function of the rest of the node in a `Marked` pool. Setting and cutting links
bring both ends up to date and leave the links of the others alone, so they keep a pool marked
whatever it looked like before.
-/

namespace Machine6809

namespace Node

variable {n : Nat}

/-- What a node means to its chain: its status apart from the break mark, and its payload. -/
def content (node : Node n) : NodeStatus × Vector Byte payloadSize :=
  ({ node.status with fragged := false }, node.payload)

/-- The node has no status and no links. Its payload may be anything. -/
structure IsUnused (node : Node n) : Prop where
  status : node.status = NodeStatus.none
  root : node.root = none
  prev : node.prev = none
  next : node.next = none

/-- A node that was never used is unused. -/
theorem isUnused_free : (free : Node n).IsUnused := ⟨rfl, rfl, rfl, rfl⟩

/-- An unused node belongs to no chain. -/
theorem IsUnused.isAllocated {node : Node n} (h : node.IsUnused) : node.isAllocated = false := by
  unfold Node.isAllocated
  rw [h.status]
  rfl

/-- Whether a node is allocated is part of its content. -/
theorem isAllocated_eq_content (node : Node n) :
    node.isAllocated = node.content.1.allocated := rfl

/-- Nodes of the same content are both allocated or both free. -/
theorem isAllocated_congr {a b : Node n} (h : a.content = b.content) :
    a.isAllocated = b.isAllocated := by
  rw [isAllocated_eq_content, isAllocated_eq_content, h]

end Node

namespace Pool

variable {n : Nat}

/-! ### Single nodes -/

/-- The node at a position is an element of the vector of nodes. -/
theorem node_eq_getElem (p : Pool n) (k : Fin n) : p.node k = p.nodes[k.val] := rfl

/-- Putting a node at a position changes that position and no other. -/
@[simp] theorem node_setNode (p : Pool n) (i : Fin n) (x : Node n) (k : Fin n) :
    (p.setNode i x).node k = if k = i then x else p.node k := by
  rw [node_eq_getElem, node_eq_getElem]
  unfold setNode
  rw [Vector.getElem_set]
  -- positions are equal exactly if their numbers are
  by_cases h : k = i
  · rw [if_pos (congrArg Fin.val h.symm), if_pos h]
  · rw [if_neg (fun hv => h (Fin.ext hv.symm)), if_neg h]

/-- Changing the node at a position changes that position and no other. -/
@[simp] theorem node_modifyNode (p : Pool n) (i : Fin n) (f : Node n → Node n) (k : Fin n) :
    (p.modifyNode i f).node k = if k = i then f (p.node i) else p.node k :=
  node_setNode p i (f (p.node i)) k

/-- Every node of an empty pool is free. -/
theorem node_empty (k : Fin n) : (empty : Pool n).node k = Node.free := by
  rw [node_eq_getElem]
  exact Vector.getElem_replicate k.isLt

/-- A claimed node belongs to its new chain, is blank and has no links. -/
theorem node_claim (p : Pool n) (i root : Fin n) (template : NodeStatus) (k : Fin n) :
    (p.claim i root template).node k
      = if k = i then
          { Node.free with status := { template with allocated := true }, root := some root }
        else p.node k :=
  node_setNode p i _ k

/-- A released node is as it was before it was ever used. -/
theorem node_release (p : Pool n) (i k : Fin n) :
    (p.release i).node k = if k = i then Node.free else p.node k :=
  node_setNode p i _ k

/-- The counters have no part in the nodes. -/
theorem node_withBreaks (p : Pool n) (c : Counter) (k : Fin n) :
    ({ p with breaks := c } : Pool n).node k = p.node k := rfl

/-- What two changes of nodes both leave alone can still be read off every node. -/
theorem modifyNode_modifyNode_reading {α : Type*} {p : Pool n} {i j k : Fin n}
    {f g : Node n → Node n} (read : Node n → α) (hf : ∀ x, read (f x) = read x)
    (hg : ∀ x, read (g x) = read x) :
    read (((p.modifyNode i f).modifyNode j g).node k) = read (p.node k) := by
  have hone : ∀ k, read ((p.modifyNode i f).node k) = read (p.node k) := by
    intro k
    rw [node_modifyNode]
    split_ifs with hi
    · rw [hf, hi]
    · rfl
  -- the second change is applied to what the first has left
  rw [node_modifyNode]
  split_ifs with hj
  · rw [hg, hone, hj]
  · exact hone k

/-! ### Refreshing a break mark -/

section Refresh

variable (p : Pool n) (i k : Fin n)

theorem refresh_reading {α : Type*} (read : Node n → α)
    (hread : ∀ (x : Node n) (mark : Bool),
      read { x with status := { x.status with fragged := mark } } = read x) :
    read ((p.refresh i).node k) = read (p.node k) := by
  unfold refresh
  rw [node_modifyNode]
  -- the node itself gets another mark, which is not read, and the others are as they were
  split_ifs with h
  · rw [hread, h]
  · rfl

@[simp] theorem refresh_next : ((p.refresh i).node k).next = (p.node k).next :=
  refresh_reading p i k Node.next fun _ _ => rfl

@[simp] theorem refresh_prev : ((p.refresh i).node k).prev = (p.node k).prev :=
  refresh_reading p i k Node.prev fun _ _ => rfl

@[simp] theorem refresh_root : ((p.refresh i).node k).root = (p.node k).root :=
  refresh_reading p i k Node.root fun _ _ => rfl

@[simp] theorem refresh_content : ((p.refresh i).node k).content = (p.node k).content :=
  refresh_reading p i k Node.content fun _ _ => rfl

variable {p i k}

theorem refresh_node_of_ne (h : k ≠ i) : (p.refresh i).node k = p.node k := by
  unfold refresh
  rw [node_modifyNode, if_neg h]

end Refresh

/-! ### Setting and cutting a link -/

/-- Give a node a next link and another a previous one, and bring both marks up to date. Setting a
link and cutting one are both of this kind. -/
def rewire (p : Pool n) (i j : Fin n) (next prev : Option (Fin n)) (breaks : Counter) : Pool n :=
  let p := p.modifyNode i fun node => { node with next := next }
  let p := p.modifyNode j fun node => { node with prev := prev }
  (({ p with breaks := breaks } : Pool n).refresh i).refresh j

/-- Linking two nodes is a rewiring that counts a break if they are no neighbours. -/
theorem link_eq_rewire (p : Pool n) (i j : Fin n) : p.link i j
    = p.rewire i j (some j) (some i) (if adjacent i j then p.breaks else p.breaks.up) := rfl

/-- Cutting a link is a rewiring that takes the break off the count again. -/
theorem unlink_eq_rewire (p : Pool n) (i j : Fin n) : p.unlink i j
    = p.rewire i j none none (if adjacent i j then p.breaks else p.breaks.downToZero) := rfl

section Rewire

variable (p : Pool n) (i j k : Fin n) (next prev : Option (Fin n)) (breaks : Counter)

/-- Only the first node gets another next link. -/
theorem rewire_next : ((p.rewire i j next prev breaks).node k).next
    = if k = i then next else (p.node k).next := by
  unfold rewire
  rw [refresh_next, refresh_next, node_withBreaks, node_modifyNode]
  by_cases hj : k = j
  · -- the second change leaves the next link that the first has made
    rw [if_pos hj, hj, node_modifyNode]
    split_ifs <;> rfl
  · rw [if_neg hj, node_modifyNode]
    split_ifs <;> rfl

/-- Only the second node gets another previous link. -/
theorem rewire_prev : ((p.rewire i j next prev breaks).node k).prev
    = if k = j then prev else (p.node k).prev := by
  unfold rewire
  rw [refresh_prev, refresh_prev, node_withBreaks, node_modifyNode]
  by_cases hj : k = j
  · rw [if_pos hj, if_pos hj]
  · -- the first change has kept the previous link
    rw [if_neg hj, if_neg hj, node_modifyNode]
    split_ifs with hi
    · rw [hi]
    · rfl

/-- A link says nothing of the root. -/
theorem rewire_root : ((p.rewire i j next prev breaks).node k).root = (p.node k).root := by
  unfold rewire
  rw [refresh_root, refresh_root, node_withBreaks]
  exact modifyNode_modifyNode_reading Node.root (fun _ => rfl) (fun _ => rfl)

/-- A link says nothing of the content. -/
theorem rewire_content :
    ((p.rewire i j next prev breaks).node k).content = (p.node k).content := by
  unfold rewire
  rw [refresh_content, refresh_content, node_withBreaks]
  exact modifyNode_modifyNode_reading Node.content (fun _ => rfl) (fun _ => rfl)

variable {p i j k next prev breaks}

/-- A link concerns its two ends only. -/
theorem rewire_node_of_ne (hi : k ≠ i) (hj : k ≠ j) :
    (p.rewire i j next prev breaks).node k = p.node k := by
  unfold rewire
  rw [refresh_node_of_ne hj, refresh_node_of_ne hi, node_withBreaks, node_modifyNode, if_neg hj,
    node_modifyNode, if_neg hi]

end Rewire

section Link

variable (p : Pool n) (i j k : Fin n)

/-- What a new link leaves at each node. -/
@[simp] theorem link_next :
    ((p.link i j).node k).next = if k = i then some j else (p.node k).next :=
  rewire_next p i j k _ _ _

/-- A new link is answered by a link back. -/
@[simp] theorem link_prev :
    ((p.link i j).node k).prev = if k = j then some i else (p.node k).prev :=
  rewire_prev p i j k _ _ _

@[simp] theorem link_root : ((p.link i j).node k).root = (p.node k).root :=
  rewire_root p i j k _ _ _

@[simp] theorem link_content : ((p.link i j).node k).content = (p.node k).content :=
  rewire_content p i j k _ _ _

/-- What a link that was cut leaves at each node. -/
@[simp] theorem unlink_next :
    ((p.unlink i j).node k).next = if k = i then none else (p.node k).next :=
  rewire_next p i j k _ _ _

/-- A cut takes the link back away as well. -/
@[simp] theorem unlink_prev :
    ((p.unlink i j).node k).prev = if k = j then none else (p.node k).prev :=
  rewire_prev p i j k _ _ _

@[simp] theorem unlink_root : ((p.unlink i j).node k).root = (p.node k).root :=
  rewire_root p i j k _ _ _

@[simp] theorem unlink_content : ((p.unlink i j).node k).content = (p.node k).content :=
  rewire_content p i j k _ _ _

variable {p i j k}

/-- A new link concerns its two ends only. -/
theorem link_node_of_ne (hi : k ≠ i) (hj : k ≠ j) : (p.link i j).node k = p.node k :=
  rewire_node_of_ne hi hj

/-- So does cutting one. -/
theorem unlink_node_of_ne (hi : k ≠ i) (hj : k ≠ j) : (p.unlink i j).node k = p.node k :=
  rewire_node_of_ne hi hj

end Link

/-! ### Links beside a node that may have no neighbour -/

section Beside

variable (p : Pool n) (a? : Option (Fin n)) (i k : Fin n)

@[simp] theorem linkFrom_content :
    ((p.linkFrom a? i).node k).content = (p.node k).content := by
  cases a? with
  | none => rfl
  | some a => exact link_content p a i k

@[simp] theorem linkTo_content :
    ((p.linkTo i a?).node k).content = (p.node k).content := by
  cases a? with
  | none => rfl
  | some a => exact link_content p i a k

@[simp] theorem unlinkFrom_content :
    ((p.unlinkFrom a? i).node k).content = (p.node k).content := by
  cases a? with
  | none => rfl
  | some a => exact unlink_content p a i k

@[simp] theorem unlinkTo_content :
    ((p.unlinkTo i a?).node k).content = (p.node k).content := by
  cases a? with
  | none => rfl
  | some a => exact unlink_content p i a k

@[simp] theorem linkFrom_root : ((p.linkFrom a? i).node k).root = (p.node k).root := by
  cases a? with
  | none => rfl
  | some a => exact link_root p a i k

@[simp] theorem linkTo_root : ((p.linkTo i a?).node k).root = (p.node k).root := by
  cases a? with
  | none => rfl
  | some a => exact link_root p i a k

@[simp] theorem unlinkFrom_root : ((p.unlinkFrom a? i).node k).root = (p.node k).root := by
  cases a? with
  | none => rfl
  | some a => exact unlink_root p a i k

@[simp] theorem unlinkTo_root : ((p.unlinkTo i a?).node k).root = (p.node k).root := by
  cases a? with
  | none => rfl
  | some a => exact unlink_root p i a k

variable {p a? i k}

theorem linkFrom_node_of_ne (ha : ∀ a, a? = some a → k ≠ a) (hi : k ≠ i) :
    (p.linkFrom a? i).node k = p.node k := by
  cases a? with
  | none => rfl
  | some a => exact link_node_of_ne (ha a rfl) hi

theorem linkTo_node_of_ne (ha : ∀ a, a? = some a → k ≠ a) (hi : k ≠ i) :
    (p.linkTo i a?).node k = p.node k := by
  cases a? with
  | none => rfl
  | some a => exact link_node_of_ne hi (ha a rfl)

theorem unlinkFrom_node_of_ne (ha : ∀ a, a? = some a → k ≠ a) (hi : k ≠ i) :
    (p.unlinkFrom a? i).node k = p.node k := by
  cases a? with
  | none => rfl
  | some a => exact unlink_node_of_ne (ha a rfl) hi

theorem unlinkTo_node_of_ne (ha : ∀ a, a? = some a → k ≠ a) (hi : k ≠ i) :
    (p.unlinkTo i a?).node k = p.node k := by
  cases a? with
  | none => rfl
  | some a => exact unlink_node_of_ne hi (ha a rfl)

end Beside

/-! ### Break marks -/

/-- The break mark of a node is set if and only if the node is allocated and linked to one that
is not its neighbour in the row. -/
def MarkedAt (p : Pool n) (k : Fin n) : Prop :=
  (p.node k).status.fragged = ((p.node k).isAllocated && Node.isBroken k (p.node k))

/-- All break marks are up to date. -/
def Marked (p : Pool n) : Prop := ∀ k, p.MarkedAt k

/-- The mark is a matter of the node alone. -/
theorem MarkedAt.congr {p q : Pool n} {k : Fin n} (h : p.MarkedAt k) (he : q.node k = p.node k) :
    q.MarkedAt k := by
  unfold MarkedAt
  rw [he]
  exact h

/-- A refresh makes the mark what it should be. -/
theorem markedAt_refresh_self (p : Pool n) (i : Fin n) : (p.refresh i).MarkedAt i := by
  unfold MarkedAt refresh
  rw [node_modifyNode, if_pos rfl]
  rfl

/-- A refresh of any node keeps the marks that were right. -/
theorem MarkedAt.refresh {p : Pool n} {k : Fin n} (h : p.MarkedAt k) (i : Fin n) :
    (p.refresh i).MarkedAt k := by
  by_cases hk : k = i
  · rw [hk]
    exact markedAt_refresh_self p i
  · exact h.congr (refresh_node_of_ne hk)

/-- Both ends of a link are refreshed, and the other nodes are as they were. -/
theorem MarkedAt.rewire {p : Pool n} {k : Fin n} (h : p.MarkedAt k) (i j : Fin n)
    (next prev : Option (Fin n)) (breaks : Counter) :
    (p.rewire i j next prev breaks).MarkedAt k := by
  by_cases hj : k = j
  · rw [hj]
    exact markedAt_refresh_self _ j
  · by_cases hi : k = i
    · -- the second refresh keeps what the first has done
      rw [hi]
      exact (markedAt_refresh_self _ i).refresh j
    · exact h.congr (rewire_node_of_ne hi hj)

/-- A new link keeps the marks that were right. -/
theorem MarkedAt.link {p : Pool n} {k : Fin n} (h : p.MarkedAt k) (i j : Fin n) :
    (p.link i j).MarkedAt k :=
  h.rewire i j _ _ _

/-- A pool stays marked when links are set or cut. -/
theorem Marked.rewire {p : Pool n} (h : p.Marked) (i j : Fin n) (next prev : Option (Fin n))
    (breaks : Counter) : (p.rewire i j next prev breaks).Marked :=
  fun k => (h k).rewire i j next prev breaks

/-- Linking brings the marks of both nodes up to date. -/
theorem Marked.link {p : Pool n} (h : p.Marked) (i j : Fin n) : (p.link i j).Marked :=
  h.rewire i j _ _ _

/-- So does cutting. -/
theorem Marked.unlink {p : Pool n} (h : p.Marked) (i j : Fin n) : (p.unlink i j).Marked :=
  h.rewire i j _ _ _

/-- Links beside a node keep a pool marked, whether the node has the neighbour or not. -/
theorem Marked.linkFrom {p : Pool n} (h : p.Marked) (a? : Option (Fin n)) (i : Fin n) :
    (p.linkFrom a? i).Marked := by
  cases a? with
  | none => exact h
  | some a => exact h.link a i

/-- A link to a node that may be missing keeps the pool marked. -/
theorem Marked.linkTo {p : Pool n} (h : p.Marked) (i : Fin n) (a? : Option (Fin n)) :
    (p.linkTo i a?).Marked := by
  cases a? with
  | none => exact h
  | some a => exact h.link i a

theorem Marked.unlinkFrom {p : Pool n} (h : p.Marked) (a? : Option (Fin n)) (i : Fin n) :
    (p.unlinkFrom a? i).Marked := by
  cases a? with
  | none => exact h
  | some a => exact h.unlink a i

theorem Marked.unlinkTo {p : Pool n} (h : p.Marked) (i : Fin n) (a? : Option (Fin n)) :
    (p.unlinkTo i a?).Marked := by
  cases a? with
  | none => exact h
  | some a => exact h.unlink i a

/-- A node without links carries no mark, unless it was claimed with one. -/
theorem MarkedAt.claim {p : Pool n} {k : Fin n} (h : p.MarkedAt k) (i root : Fin n)
    {template : NodeStatus} (ht : template.fragged = false) :
    (p.claim i root template).MarkedAt k := by
  by_cases hk : k = i
  · -- without links there is no break beside the node
    unfold MarkedAt
    rw [node_claim, if_pos hk]
    exact ht
  · exact h.congr (by rw [node_claim, if_neg hk])

/-- A pool stays marked when a node is claimed with a template that has no break mark. -/
theorem Marked.claim {p : Pool n} (h : p.Marked) (i root : Fin n) {template : NodeStatus}
    (ht : template.fragged = false) : (p.claim i root template).Marked :=
  fun k => (h k).claim i root ht

/-- An unused node carries no mark, and has no link that it could mark. -/
theorem markedAt_of_isUnused {p : Pool n} {k : Fin n} (h : (p.node k).IsUnused) :
    p.MarkedAt k := by
  unfold MarkedAt
  rw [h.isAllocated, h.status]
  rfl

/-- A pool stays marked when a node is released. -/
theorem Marked.release {p : Pool n} (h : p.Marked) (i : Fin n) : (p.release i).Marked := by
  intro k
  by_cases hk : k = i
  · -- a released node is not allocated and has no mark
    unfold MarkedAt
    rw [node_release, if_pos hk]
    rfl
  · exact (h k).congr (by rw [node_release, if_neg hk])

/-- A change that keeps links, marks and allocation keeps the pool marked. -/
theorem Marked.modifyNode {p : Pool n} (h : p.Marked) (i : Fin n) {f : Node n → Node n}
    (hp : (f (p.node i)).prev = (p.node i).prev) (hn : (f (p.node i)).next = (p.node i).next)
    (ha : (f (p.node i)).isAllocated = (p.node i).isAllocated)
    (hm : (f (p.node i)).status.fragged = (p.node i).status.fragged) :
    (p.modifyNode i f).Marked := by
  intro k
  by_cases hk : k = i
  · -- all that the mark depends on is as it was
    unfold MarkedAt Node.isBroken
    rw [node_modifyNode, if_pos hk, hp, hn, ha, hm, hk]
    exact h i
  · exact (h k).congr (by rw [node_modifyNode, if_neg hk])

/-- In an empty pool no node is allocated and no mark is set. -/
theorem marked_empty : (empty : Pool n).Marked := by
  intro k
  unfold MarkedAt
  rw [node_empty]
  rfl

end Pool

end Machine6809
