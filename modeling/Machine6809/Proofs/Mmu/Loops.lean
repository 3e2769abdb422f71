import Machine6809.Proofs.Mmu.Invariants
import Machine6809.Proofs.Pool.Loops

/-!
# The loops of the unit end

The unit is driven by its guest, and no request of a guest may keep it busy forever. The loops that
have no bound of their own are those along chains, and in every state of the unit the links are in
order, so that they end (`Pool.LoopsEnd`). A walk is limited to as many nodes as the pool has, which
no chain exceeds, so the limit never shows.

On the board the nodes are addressed by words. A loop goes from one node to the next by such a word
and, when it closes breaks, looks at the node behind another one. Each of these words is the index
of a node.
-/

namespace Machine6809

namespace Mmu

variable {n : ℕ} {m : Mmu n}

/-- **The loops along chains end** in every state of the unit, although two of them rewrite what
they walk. They visit what they should, each node once. All positions they use are indices of the
pool, also as words, and a place that a loop looks at behind a node is in the pool. -/
theorem chain_loops_end (hn : n < 65536) (hm : m.Reachable) :
    m.pool.LoopsEnd ∧
      (∀ i : Fin n, (positionWord i).toNat < n ∧ Pool.index? (positionWord i) = some i) ∧
      ∀ i place, m.pool.freePlaceAfter? i = some place →
        (positionWord place).toNat = (positionWord i).toNat + 1 := by
  obtain ⟨S, hS⟩ := hm.exists_chained hn
  refine ⟨hS.loopsEnd, fun i => ⟨?_, Pool.index?_positionWord hn i⟩, fun i place hplace => ?_⟩
  · rw [toNat_positionWord hn]
    exact i.isLt
  · have hadj := (Pool.freePlaceAfter?_spec hplace).2
    rw [toNat_positionWord hn, toNat_positionWord hn]
    exact (beq_iff_eq.mp hadj).symm

/-- The small unit has a chain of two nodes with a gap between them, which one move closes. -/
theorem chain_loops_end_sample :
    sampleUnit.pool.LoopsEnd ∧ sampleUnit.pool.isHandle 0 = true ∧
      sampleUnit.pool.chain 0 = [0, 2] ∧ sampleUnit.pool.defrag.2 = [⟨2, 1⟩] := by
  obtain ⟨hloops, -⟩ := chain_loops_end (m := sampleUnit) (by decide)
    ⟨by decide, sampleRequests, fun _ _ => trivial, rfl⟩
  exact ⟨hloops, by decide +kernel, by decide +kernel, by decide +kernel⟩

end Mmu

end Machine6809
