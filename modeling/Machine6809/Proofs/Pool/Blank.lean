import Machine6809.Proofs.Pool.Allocation
import Machine6809.Proofs.Pool.Edits
import Machine6809.Proofs.Pool.Relocation

/-!
# Free nodes are blank

The links of a free node are settled by the layout. Its payload is not, since nothing stops one from
writing there. `Pool.Blank` says that no one has. Every operation keeps it: a node that becomes
free is cleared, and a node that was free is either left alone or allocated. For all operations but
one this can be read off what is known of their outcome. Defragmentation has to be gone through
move by move.

A pool without chains whose free nodes are blank is the empty pool (`Layout.eq_empty`).
-/

namespace Machine6809

namespace Pool

variable {n : ℕ}

/-- The payloads of free nodes are blank. -/
def Blank (p : Pool n) : Prop :=
  ∀ k, (p.node k).isAllocated = false → (p.node k).payload = Node.blank

section Blank

variable {p q : Pool n} {S T : List (List (Fin n))} {A B L L' : List (Fin n)}
  {h i new place root : Fin n}

/-- A pool that has just been made has written nothing. -/
theorem blank_empty : (empty : Pool n).Blank := by
  intro k _
  rw [node_empty]
  rfl

/-! ### Allocating and freeing -/

/-- A new chain takes free nodes and leaves the other free ones alone. -/
theorem Blank.gains (hb : p.Blank) (hg : Gains p q S root B) : q.Blank := by
  intro k hk
  -- the nodes of the new chain are allocated
  have hkB : k ∉ root :: B := fun hm => by
    rw [hg.chained.isAllocated hm] at hk
    exact absurd hk (by simp)
  rw [hg.others k hkB] at hk ⊢
  exact hb k hk

/-- Allocation keeps free nodes blank, however it ends. -/
theorem Blank.allocate (hb : p.Blank) (hc : p.Chained S) (count : ℕ) (template : NodeStatus) :
    (p.allocate count template).2.Blank := by
  have hcases := hc.allocate count template
  generalize p.allocate count template = x at hcases ⊢
  cases hcases with
  | badLength => exact hb
  | noneFree hfree => exact hb
  | built gains length_eq => exact hb.gains gains
  | exhausted gains length_lt hfree => exact hb.gains gains

/-- The nodes that are freed are cleared. -/
theorem Blank.releaseChain (hb : p.Blank) (hc : p.Chained S) (hi : p.isHandle i = true) :
    (p.releaseChain i).2.Blank := by
  obtain ⟨B, T, -, hT⟩ := hc.exists_handle hi
  intro k hk
  have hnode := hT.releaseChain.2.2 k
  rw [hnode] at hk ⊢
  -- a node is of the freed chain or as it was
  split_ifs at hk ⊢
  · rfl
  · exact hb k hk

/-! ### Splicing -/

/-- An edit leaves free nodes blank if the one that it takes out is cleared. -/
theorem Blank.edited (hb : p.Blank) (he : p.Edited q h L')
    (hL' : ∀ k ∈ L', (q.node k).isAllocated = true)
    (hout : ∀ k ∈ p.chain h, k ∉ L' → q.node k = Node.free) : q.Blank := by
  intro k hk
  -- members of the new list are allocated; those that have dropped out are cleared
  by_cases hkL' : k ∈ L'
  · rw [hL' k hkL'] at hk
    exact absurd hk (by simp)
  · by_cases hkh : k ∈ p.chain h
    · rw [hout k hkh hkL']
      rfl
    · rw [he.others k hkh hkL'] at hk ⊢
      exact hb k hk

theorem Blank.remove (hb : p.Blank) (hc : p.Chained S) (hi : (p.node i).isAllocated = true) :
    (p.remove i).Blank := by
  obtain ⟨A, B, T, -, hT⟩ := hc.exists_focus hi
  have hmem : i ∈ A ++ i :: B := by simp
  have hq : (p.remove i).Chained ((A ++ B) :: T) := hT.remove.1
  obtain ⟨h, hh⟩ := exists_head_of_mem hmem
  obtain ⟨hedit, hfree⟩ := hT.edited_remove hh
  refine hb.edited hedit (fun k hk => hq.isAllocated hk) fun k hk hk' => ?_
  rw [hT.chain_eq_of_mem List.mem_cons_self hh] at hk
  -- only `i` has gone
  obtain rfl : k = i := by
    simp only [List.mem_append, List.mem_cons] at hk hk'
    tauto
  exact hfree

/-- An edit that takes nothing out has nothing to clear. -/
theorem Blank.inserted (hb : p.Blank) (hc : p.Chained (L :: T)) (hh : L.head? = some h)
    (hq : q.Chained (L' :: T)) (he : p.Edited q h L') (hsub : ∀ k ∈ L, k ∈ L') : q.Blank := by
  refine hb.edited he (fun k hk => hq.isAllocated hk) fun k hk hk' => ?_
  rw [hc.chain_eq_of_mem List.mem_cons_self hh] at hk
  exact absurd (hsub k hk) hk'

/-- Putting a node in front of another leaves the free nodes that remain as they are. -/
theorem Blank.insertBefore (hb : p.Blank) (hc : p.Chained S)
    (hi : (p.node i).isAllocated = true) (hnew : p.firstFree = some new) :
    (p.insertBefore new i).Blank := by
  obtain ⟨A, B, T, -, hT⟩ := hc.exists_focus hi
  have hmem : i ∈ A ++ i :: B := by simp
  obtain ⟨h, hh⟩ := exists_head_of_mem hmem
  refine hb.inserted hT hh (hT.insertBefore hnew).1 (hT.edited_insertBefore hh hnew).1 ?_
  intro k hk
  simp only [List.mem_append, List.mem_cons] at hk ⊢
  tauto

theorem Blank.insertAfter (hb : p.Blank) (hc : p.Chained S)
    (hi : (p.node i).isAllocated = true) (hnew : p.firstFree = some new) :
    (p.insertAfter new i).Blank := by
  obtain ⟨A, B, T, -, hT⟩ := hc.exists_focus hi
  have hmem : i ∈ A ++ i :: B := by simp
  obtain ⟨h, hh⟩ := exists_head_of_mem hmem
  refine hb.inserted hT hh (hT.insertAfter hnew).1 (hT.edited_insertAfter hh hnew).1 ?_
  intro k hk
  simp only [List.mem_append, List.mem_cons] at hk ⊢
  tauto

/-! ### Writing -/

/-- What is written to an allocated node does not matter, as long as it stays allocated. -/
theorem Blank.modifyNode (hb : p.Blank) {f : Node n → Node n}
    (hi : (p.node i).isAllocated = true)
    (hf : (f (p.node i)).isAllocated = (p.node i).isAllocated) : (p.modifyNode i f).Blank := by
  intro k hk
  rw [node_modifyNode] at hk ⊢
  split_ifs at hk ⊢ with hki
  · rw [hf, hi] at hk
    exact absurd hk (by simp)
  · exact hb k hk

/-! ### Closing breaks -/

/-- The place that a node has left is cleared. -/
theorem Blank.relocate (hb : p.Blank) (i place : Fin n) : (p.relocate i place).Blank := by
  intro k hk
  have hcontent := relocate_content p i place k
  rw [Node.isAllocated_eq_content, hcontent] at hk
  change ((p.relocate i place).node k).content.2 = _
  rw [hcontent]
  -- at the old place, at the new place, and anywhere else
  split_ifs at hk ⊢
  · rfl
  · exact hb i hk
  · exact hb k hk

/-- Closing the breaks of a chain is a number of relocations. -/
theorem Blank.closeBreaks : ∀ (fuel : ℕ) {p : Pool n} (i : Fin n) (moves : List (Move n)),
    p.Blank → (Pool.closeBreaks fuel i p moves).1.Blank := by
  intro fuel
  -- along the walk through the chain, with or without a move at each node
  induction fuel with
  | zero => exact fun _ _ hb => hb
  | succ fuel ih =>
    intro p i moves hb
    rw [Pool.closeBreaks]
    cases (p.node i).next with
    | none => exact hb
    | some j =>
      dsimp only
      split
      · exact ih _ _ (hb.relocate j _)
      · exact ih _ _ hb

/-- Defragmentation is closing the breaks of one chain after the other. -/
theorem Blank.defrag (hb : p.Blank) : p.defrag.1.Blank := by
  -- the moves that have been made so far play no part
  have hfold : ∀ (heads : List (Fin n)) (state : Pool n × List (Move n)), state.1.Blank →
      (heads.foldl closeBreaksAt state).1.Blank := by
    intro heads
    induction heads with
    | nil => exact fun _ hb => hb
    | cons i heads ih =>
      intro state hb
      refine ih _ ?_
      unfold closeBreaksAt
      dsimp only
      split_ifs
      · exact Blank.closeBreaks n i state.2 hb
      · exact hb
  exact hfold (List.finRange n) (p, []) hb

/-! ### The empty pool -/

/-- A free node is as it was before it was ever used. -/
theorem Layout.node_eq_free (hl : p.Layout S) (hb : p.Blank)
    (hi : (p.node i).isAllocated = false) : p.node i = Node.free := by
  have hunused := hl.unused i (hl.not_mem_of_free hi)
  have hpayload := hb i hi
  obtain ⟨hstatus, hroot, hprev, hnext⟩ := hunused
  -- field by field
  cases hx : p.node i with
  | mk status payload root prev next =>
    rw [hx] at hstatus hroot hprev hnext hpayload
    dsimp only at hstatus hroot hprev hnext hpayload
    subst hstatus hroot hprev hnext hpayload
    rfl

/-- A counter that shows a number is as one that has been started at it. -/
theorem counter_eq_start {c : Counter} {k : ℕ} (hc : c.Shows k) : c = Counter.start k := by
  obtain ⟨value, overran⟩ := c
  obtain ⟨hvalue, hoverran⟩ := hc
  dsimp only at hvalue hoverran
  subst hvalue hoverran
  unfold Counter.start
  rw [UInt16.ofNat_toNat]

/-- **Without chains the pool is empty.** -/
theorem Layout.eq_empty (hl : p.Layout S) (hb : p.Blank) (hS : S.flatten = []) (hn : 0 < n) :
    p = empty := by
  have hnone : ∀ k, k ∉ S.flatten := by
    intro k
    rw [hS]
    exact List.not_mem_nil
  -- no node is in a chain, so each of them is free
  have hnode : ∀ k, p.node k = Node.free := by
    intro k
    refine hl.node_eq_free hb ?_
    rw [← Bool.not_eq_true, hl.allocated_iff]
    exact hnone k
  have hnodes : p.nodes = Vector.replicate n Node.free := by
    ext k hk
    rw [Vector.getElem_replicate]
    exact hnode ⟨k, hk⟩
  -- the first node is free, so the hint is at it
  have hhint : p.hint = 0 := by
    by_contra hpos
    exact hnone ⟨0, hn⟩ (hl.below_hint ⟨0, hn⟩ (Nat.pos_of_ne_zero hpos))
  have hsum : (S.map breaksIn).sum = 0 := by
    have hle := sum_breaksIn_le_length S
    rw [hS] at hle
    exact Nat.le_zero.mp hle
  -- the three counters show the numbers that they show in an empty pool
  have hfree := counter_eq_start hl.free_shows
  have hallocated := counter_eq_start hl.allocated_shows
  have hbreaks := counter_eq_start hl.breaks_shows
  rw [hS, List.length_nil] at hfree hallocated
  rw [hsum] at hbreaks
  obtain ⟨nodes, hint, free, allocated, breaks⟩ := p
  dsimp only at hnodes hhint hfree hallocated hbreaks
  subst hnodes hhint hfree hallocated hbreaks
  rfl

end Blank

end Pool

end Machine6809
