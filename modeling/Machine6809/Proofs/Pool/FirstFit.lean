import Machine6809.Proofs.Pool.Allocation

/-!
# Allocation is first-fit

An allocation takes free nodes from the front of the list of free positions, whatever lies between
them, so it gets as many as it asks for if there are as many. `Pool.Builds` says what has become of
the pool then, node by node: everything about a new node follows from the template and from its
place in the chain (`placed`), and nothing from what its slot held before.

The break marks of the new nodes are right because a node is claimed without one and each link that
is set refreshes it. The rest of the pool may carry wrong marks.
-/

namespace Machine6809

namespace Pool

variable {n : ℕ}

/-- From `p` to `q` the nodes `L` have become a chain in this order, and nothing else has
happened. -/
structure Builds (p q : Pool n) (template : NodeStatus) (L : List (Fin n)) : Prop where
  chain : ∀ root, L.head? = some root → q.isHandle root = true ∧ q.chain root = L
  node : ∀ A k B, L = A ++ k :: B → q.node k = placed (claimedContent template) A k B
  others : ∀ k, k ∉ L → q.node k = p.node k
  freeCount_eq : q.freeCount + L.length = p.freeCount
  allocatedCount_eq : q.allocatedCount = p.allocatedCount + L.length
  breakCount_eq : q.breakCount = p.breakCount + breaksIn L

section Builds

variable {p q : Pool n} {S : List (List (Fin n))} {B : List (Fin n)} {root : Fin n}
  {template : NodeStatus} {count : ℕ}

/-- **A chain that has been gained** from a plain template is settled by the list of its nodes. -/
theorem Gains.builds (hg : Gains p q S root B) (hp : p.Chained S)
    (hcontent : ∀ k ∈ root :: B, (q.node k).content = claimedContent template)
    (hmarks : ∀ k ∈ root :: B, q.MarkedAt k) : Builds p q template (root :: B) := by
  have hq := hg.chained
  -- what the counters show before and after, with the new chain apart from the others
  have hlen := hq.length_le
  rw [List.flatten_cons, List.length_append] at hlen
  have hfree := hq.free_shows.1
  have hcount := hq.allocated_shows.1
  have hbreaks := hq.breaks_shows.1
  rw [List.flatten_cons, List.length_append] at hfree hcount
  rw [List.map_cons, List.sum_cons] at hbreaks
  refine
    { chain := ?chain
      node := ?node
      others := hg.others
      freeCount_eq := ?free
      allocatedCount_eq := ?count
      breakCount_eq := ?breaks }
  case chain =>
    intro r hr
    exact ⟨hq.isHandle_iff.mpr ⟨_, List.mem_cons_self, hr⟩,
      hq.chain_eq_of_mem List.mem_cons_self hr⟩
  case node =>
    intro A k B' hL
    -- a member's links and root follow from its place, and its content is that of a claimed node
    have hk : k ∈ root :: B := by rw [hL]; simp
    rw [hL] at hq
    rw [hq.node_eq_placed (hmarks k hk), hcontent k hk]
  case free =>
    have hbefore := hp.free_shows.1
    change q.free.value.toNat + _ = p.free.value.toNat
    omega
  case count =>
    have hbefore := hp.allocated_shows.1
    change q.allocated.value.toNat = p.allocated.value.toNat + _
    omega
  case breaks =>
    have hbefore := hp.breaks_shows.1
    change q.breaks.value.toNat = p.breaks.value.toNat + _
    omega

/-- What an allocation of an admissible length gives, by the number of free nodes. -/
theorem Chained.allocate_builds (h : p.Chained S) (ht : template.fragged = false)
    (hpos : 0 < count) (hmax : count ≤ maxChain) (hf : p.firstFree = some root) :
    ∃ q, Builds p q template (p.freePositions.take count) ∧
      p.allocate count template =
        (if count ≤ p.freePositions.length then .built root
          else .exhausted root p.freePositions.length, q) := by
  obtain ⟨B, hgains, htake, hB⟩ := h.build hf template (count - 1)
  -- the nodes it takes were unused, and so had no mark to lose
  have hmarks : ∀ k ∈ root :: B, (p.allocate count template).2.MarkedAt k := by
    intro k hk
    rw [htake] at hk
    have hfree := mem_freePositions.mp (List.mem_of_mem_take hk)
    exact (markedAt_of_isUnused (h.unused k (h.not_mem_of_free hfree))).allocate count ht
  have hlength := congrArg List.length htake
  rw [Nat.sub_add_cancel hpos] at htake hlength
  rw [List.length_cons, List.length_take] at hlength
  have hbad : ¬(count = 0 || decide (maxChain < count)) = true := by
    simp only [Bool.or_eq_true, decide_eq_true_eq]
    omega
  unfold Pool.allocate at hmarks ⊢
  rw [if_neg hbad, hf] at hmarks ⊢
  dsimp only at hmarks ⊢
  generalize Pool.extend root template (count - 1) root (p.claim root root template) = x
    at hgains hB hmarks ⊢
  obtain ⟨lacking, q⟩ := x
  dsimp only at hgains hB hmarks ⊢
  -- as many are lacking as have not been found
  have hlacking : B.length + lacking = count - 1 := hB.length_eq
  refine ⟨q, htake ▸ hgains.builds h (fun k hk => ?_) hmarks, ?_⟩
  · rcases List.mem_cons.mp hk with rfl | hk
    · -- the root has been claimed before the others, and it has kept its content
      rw [hB.beside.content k (by simp) (by simp), node_claim, if_pos rfl]
      rfl
    · exact hB.content k hk
  · by_cases hl : lacking = 0
    · rw [if_pos hl, if_pos (by omega)]
    · rw [if_neg hl, if_neg (by omega)]
      congr 2
      omega

end Builds

end Pool

end Machine6809
