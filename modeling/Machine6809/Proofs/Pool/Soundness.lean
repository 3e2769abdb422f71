import Machine6809.Proofs.Pool.Allocation
import Machine6809.Proofs.Pool.Relocation

/-!
# The invariant of the pool

A pool is *sound* if it is made of chains (`Pool.Chained`). Its break marks are up to date as well
(`Pool.Marked`), unless someone has allocated a chain with a template that sets the mark; so
`Pool.Sound` takes a proposition that says whether the marks are to be relied on, and one lemma
for each operation serves both readings.

Here is one such lemma for every operation on the pool, each under the conditions under which the
unit calls it. Nothing about the shape of the chains appears any more: this is what the rest of
the theory builds its runs from.
-/

namespace Machine6809

namespace Pool

variable {n : ℕ}

/-- The pool is made of chains, and if `marks` holds, the break marks are up to date. -/
structure Sound (marks : Prop) (p : Pool n) : Prop where
  chained : ∃ S, p.Chained S
  marked : marks → p.Marked

section Sound

variable {marks : Prop} {p : Pool n} {i new : Fin n}

/-- A pool that has just been made is sound, whatever is asked of the marks. -/
theorem sound_empty (hn : n < 65536) : Sound marks (empty : Pool n) :=
  ⟨⟨[], chained_empty hn⟩, fun _ => marked_empty⟩

/-- Whether a node is free, its links and its root stay, and so does the status of a free node. -/
theorem Sound.modifyNode (h : Sound marks p) {f : Node n → Node n}
    (hroot : (f (p.node i)).root = (p.node i).root)
    (hprev : (f (p.node i)).prev = (p.node i).prev)
    (hnext : (f (p.node i)).next = (p.node i).next)
    (hstatus : (f (p.node i)).isAllocated = (p.node i).isAllocated)
    (hmark : (f (p.node i)).status.fragged = (p.node i).status.fragged)
    (hfree : (p.node i).isAllocated = false → (f (p.node i)).status = (p.node i).status) :
    Sound marks (p.modifyNode i f) := by
  obtain ⟨S, hS⟩ := h.chained
  exact ⟨⟨S, hS.modifyNode hroot hprev hnext hstatus hfree⟩,
    fun hm => (h.marked hm).modifyNode i hprev hnext hstatus hmark⟩

/-- Allocation keeps a pool sound, however it ends. If the marks are relied on, the template must
not set one. -/
theorem Sound.allocate (h : Sound marks p) (count : ℕ) {template : NodeStatus}
    (ht : marks → template.fragged = false) : Sound marks (p.allocate count template).2 := by
  obtain ⟨S, hS⟩ := h.chained
  refine ⟨?_, fun hm => (h.marked hm).allocate count (ht hm)⟩
  have hcases := hS.allocate count template
  generalize p.allocate count template = x at hcases ⊢
  -- by how the allocation has ended: refused, or with a new chain in front of the others
  cases hcases with
  | badLength => exact ⟨S, hS⟩
  | noneFree hfree => exact ⟨S, hS⟩
  | built gains length_eq => exact ⟨_, gains.chained⟩
  | exhausted gains length_lt hfree => exact ⟨_, gains.chained⟩

theorem Sound.releaseChain (h : Sound marks p) (hi : p.isHandle i = true) :
    Sound marks (p.releaseChain i).2 := by
  obtain ⟨S, hS⟩ := h.chained
  -- the chain of the handle is put first among the chains
  obtain ⟨B, T, -, hT⟩ := hS.exists_handle hi
  exact ⟨⟨T, hT.releaseChain.2.1⟩, fun hm => Marked.releaseFrom n i (h.marked hm)⟩

theorem Sound.remove (h : Sound marks p) (hi : (p.node i).isAllocated = true) :
    Sound marks (p.remove i) := by
  obtain ⟨S, hS⟩ := h.chained
  obtain ⟨A, B, T, -, hT⟩ := hS.exists_focus hi
  exact ⟨⟨_, hT.remove.1⟩, fun hm => (h.marked hm).remove i⟩

/-- Putting a free node in front of another keeps a pool sound. -/
theorem Sound.insertBefore (h : Sound marks p) (hi : (p.node i).isAllocated = true)
    (hnew : p.firstFree = some new) : Sound marks (p.insertBefore new i) := by
  obtain ⟨S, hS⟩ := h.chained
  obtain ⟨A, B, T, -, hT⟩ := hS.exists_focus hi
  exact ⟨⟨_, (hT.insertBefore hnew).1⟩, fun hm => (h.marked hm).insertBefore new i⟩

theorem Sound.insertAfter (h : Sound marks p) (hi : (p.node i).isAllocated = true)
    (hnew : p.firstFree = some new) : Sound marks (p.insertAfter new i) := by
  obtain ⟨S, hS⟩ := h.chained
  obtain ⟨A, B, T, -, hT⟩ := hS.exists_focus hi
  exact ⟨⟨_, (hT.insertAfter hnew).1⟩, fun hm => (h.marked hm).insertAfter new i⟩

/-- Defragmentation keeps a pool sound: it renames nodes and does nothing else. -/
theorem Sound.defrag (h : Sound marks p) : Sound marks p.defrag.1 := by
  obtain ⟨S, hS⟩ := h.chained
  obtain ⟨hren, -⟩ := hS.defrag
  exact ⟨⟨_, hren.chained⟩, fun hm => hren.marked (h.marked hm)⟩

end Sound

end Pool

end Machine6809
