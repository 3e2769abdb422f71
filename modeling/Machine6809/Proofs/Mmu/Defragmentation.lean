import Machine6809.Proofs.Mmu.Invariants

/-!
# What defragmentation keeps

Defragmentation moves nodes while it walks the links that it rewrites. What it amounts to in the
end is a renaming of positions (`Chained.defrag`); here that is said without the renaming, in
terms of what the guest holds on to: handles, windows, the cursor, and places in chains.
-/

namespace Machine6809

namespace Mmu

variable {n : ℕ}

/-- From `m` to `m'` nodes have been moved, but every chain means what it did: it has its handle,
its length, and at every place a node of the same content, and the cursor stays at its place in a
chain. There are not more breaks than before, and the first argument register tells how many
members of chains have been moved. -/
structure Rearranged (m m' : Mmu n) : Prop where
  handle_iff : ∀ h, m'.pool.isHandle h = true ↔ m.pool.isHandle h = true
  windows_eq : m'.windows = m.windows
  freeCount_eq : m'.pool.freeCount = m.pool.freeCount
  allocatedCount_eq : m'.pool.allocatedCount = m.pool.allocatedCount
  length_eq : ∀ h, m.pool.isHandle h = true →
    (m'.pool.chain h).length = (m.pool.chain h).length
  content_eq : ∀ h, m.pool.isHandle h = true → ∀ (k : ℕ) (i i' : Fin n),
    (m.pool.chain h)[k]? = some i → (m'.pool.chain h)[k]? = some i' →
    (m'.pool.node i').content = (m.pool.node i).content
  cursor_eq : ∀ h, m.pool.isHandle h = true → ∀ k : ℕ, (m.pool.chain h)[k]? = some m.cursor →
    (m'.pool.chain h)[k]? = some m'.cursor
  breakCount_le : m'.pool.breakCount ≤ m.pool.breakCount
  arg1_eq : m'.arg1.toNat = m.pool.movedMembers m'.pool

section Defrag

variable {m : Mmu n}

/-- What DEFRAG leaves, in full. -/
theorem run_defrag (m : Mmu n) : m.run Command.defrag.code
    = { m.defrag.note (.commandStarted .defrag m.arg1 m.arg2 (positionWord m.cursor)) with
        command := 0
        error := .none } := by
  rw [run_code]
  rfl

/-- **Defragmentation keeps every chain.** -/
theorem defrag_rearranges (hn : n < 65536) (hm : m.Reachable) :
    (m.run Command.defrag.code).error = .none ∧
      Rearranged m (m.run Command.defrag.code) := by
  obtain ⟨S, hS⟩ := hm.exists_chained hn
  obtain ⟨hren, hmoves⟩ := hS.defrag
  obtain ⟨hfree, halloc, hbreaks⟩ := hren.counts hS
  -- no more nodes are moved than there are, so their number fits in the register
  have hlt : m.pool.defrag.2.length < 65536 := hS.length_defrag_le.trans_lt hn
  rw [run_defrag]
  refine ⟨rfl, fun h => hren.isHandle_iff hS, rfl, hfree, halloc, fun h hh => ?_,
    fun h hh k i i' hi hi' => ?_, fun h hh k hk => ?_, hbreaks, ?_⟩
  · change (m.pool.defrag.1.chain h).length = _
    rw [hren.chain_eq hS hh, List.length_map]
  · change (m.pool.defrag.1.chain h)[k]? = some i' at hi'
    rw [hren.chain_eq hS hh, List.getElem?_map, hi, Option.map_some] at hi'
    rw [← Option.some.inj hi']
    exact hren.content_eq hS (hS.isAllocated_of_mem_chain hh (List.mem_of_getElem? hi))
  · -- the cursor goes through all moves, which is what the renaming does
    change (m.pool.defrag.1.chain h)[k]? = some (m.pool.defrag.2.foldl Move.apply m.cursor)
    rw [hren.chain_eq hS hh, List.getElem?_map, hk]
    rfl
  · change (UInt16.ofNat m.pool.defrag.2.length).toNat = m.pool.movedMembers m.pool.defrag.1
    rw [UInt16.toNat_ofNat', hren.movedMembers_eq hS, ← hmoves]
    exact Nat.mod_eq_of_lt hlt

/-- The chain of the small unit is closed up by one move. -/
theorem defrag_rearranges_sample :
    Rearranged sampleUnit (sampleUnit.run Command.defrag.code) ∧
      (sampleUnit.run Command.defrag.code).arg1 = 1 ∧
      (sampleUnit.run Command.defrag.code).pool.breakCount < sampleUnit.pool.breakCount := by
  have hrearranged := (defrag_rearranges (m := sampleUnit) (by decide)
    ⟨by decide, sampleRequests, fun _ _ => trivial, rfl⟩).2
  exact ⟨hrearranged, by decide +kernel, by decide +kernel⟩

end Defrag

end Mmu

end Machine6809
