import Machine6809.Proofs.Pool.Blank
import Machine6809.Proofs.Pool.Reading

/-!
# Pools that are as they were

What a pool holds is settled by the lists of its chains and the contents of their members. Links and
roots follow from the places in the lists, break marks from the links, free nodes are blank, and the
counters count. So it takes no more than lists and contents to see that one operation undoes
another, whatever either has done to links and marks on the way. The search hint is not settled; it
may end up lower than it was.
-/

namespace Machine6809

namespace Pool

variable {n : ℕ}

/-- Pool `q` holds what pool `p` holds. -/
structure Restores (p q : Pool n) : Prop where
  node_eq : ∀ k, q.node k = p.node k
  free_eq : q.free = p.free
  allocated_eq : q.allocated = p.allocated
  breaks_eq : q.breaks = p.breaks

section Restores

variable {p q r : Pool n} {S T : List (List (Fin n))} {B L L' : List (Fin n)} {g h k : Fin n}

/-- Counters that show the same number and have not run over are the same. -/
theorem counter_ext {c d : Counter} (hvalue : c.value.toNat = d.value.toNat)
    (hc : c.overran = false) (hd : d.overran = false) : c = d := by
  obtain ⟨v, o⟩ := c
  obtain ⟨w, o'⟩ := d
  obtain rfl : v = w := UInt16.toNat_inj.mp hvalue
  exact congrArg (Counter.mk v) (hc.trans hd.symm)

/-- Where the nodes are the same, so are the counters. -/
theorem Counted.restores (hp : p.Counted) (hq : q.Counted) (hnode : ∀ k, q.node k = p.node k) :
    Restores p q where
  node_eq := hnode
  -- each counter is exact, and counts the same nodes in both pools
  free_eq := by
    refine counter_ext (hq.free.trans (Eq.trans ?_ hp.free.symm)) hq.overran.1 hp.overran.1
    simp only [hnode]
  allocated_eq := by
    refine counter_ext (hq.allocated.trans (Eq.trans ?_ hp.allocated.symm)) hq.overran.2.1
      hp.overran.2.1
    simp only [hnode]
  breaks_eq := by
    refine counter_ext (hq.breaks.trans (Eq.trans ?_ hp.breaks.symm)) hq.overran.2.2
      hp.overran.2.2
    refine congrArg Finset.card (Finset.filter_congr fun i _ => ?_)
    unfold BreaksAfter
    rw [hnode]

/-- **A chain that has been gained and is freed again** leaves nothing behind. -/
theorem Gains.restores (hg : Gains p q S h B) (hc : p.Chained S) (hb : p.Blank) :
    Restores p (q.releaseChain h).2 := by
  obtain ⟨-, hchained, hnode⟩ := hg.chained.releaseChain
  refine hc.counted.restores hchained.counted fun k => ?_
  rw [hnode]
  split_ifs with hk
  · -- the nodes of the chain were free before
    have hkS : k ∉ S.flatten := hg.chained.not_mem_of_mem hk
    refine (hc.node_eq_free hb ?_).symm
    rwa [← Bool.not_eq_true, hc.allocated_iff]
  · exact hg.others k hk

/-- A member of the same chain in two pools is the same node if it has the same content. -/
theorem Chained.node_eq_of_content (hp : p.Chained (L :: S)) (hq : q.Chained (L :: T))
    (hpm : p.MarkedAt k) (hqm : q.MarkedAt k) (hk : k ∈ L)
    (hcontent : (q.node k).content = (p.node k).content) : q.node k = p.node k := by
  obtain ⟨A, B, rfl⟩ := List.append_of_mem hk
  rw [hp.node_eq_placed hpm, hq.node_eq_placed hqm, hcontent]

/-- An edited chain is one of those that the pool is made of. -/
theorem Edited.exists_chained (he : p.Edited q h L') (hq : q.Chained T) (hg : L'.head? = some g) :
    ∃ T', q.Chained (L' :: T') := by
  have hhandle : q.isHandle g = true := (he.handle_iff g).mpr (.inl hg)
  obtain ⟨B, T', -, hT'⟩ := hq.exists_handle hhandle
  have hchain : g :: B = L' := (hT'.toLayout.chain_eq (A := [])).symm.trans (he.chain_eq g hg)
  exact ⟨T', hchain ▸ hT'⟩

/-- **An edit that is taken back.** A chain has been lengthened to `L'` and shortened to what it
was; the nodes that have come and gone are free again. -/
theorem Edited.restores (he : p.Edited q h L') (he' : q.Edited r g L) (hp : p.Chained (L :: S))
    (hr : r.Chained T) (hh : L.head? = some h) (hg : L'.head? = some g)
    (hsub : ∀ k ∈ L, k ∈ L') (hpm : p.Marked) (hrm : r.Marked)
    (hback : ∀ k ∈ L', k ∉ L → r.node k = p.node k) : Restores p r := by
  have hpchain : p.chain h = L := hp.chain_eq_of_mem List.mem_cons_self hh
  have hqchain : q.chain g = L' := he.chain_eq g hg
  obtain ⟨T', hr'⟩ := he'.exists_chained hr hh
  refine hp.counted.restores hr.counted fun k => ?_
  by_cases hkL : k ∈ L
  · -- the chain and its contents are what they were
    have hkL' : k ∈ L' := hsub k hkL
    refine hp.node_eq_of_content hr' (hpm k) (hrm k) hkL ?_
    rw [he'.content_eq k (hqchain ▸ hkL') hkL, he.content_eq k (hpchain ▸ hkL) hkL']
  · by_cases hkL' : k ∈ L'
    · exact hback k hkL' hkL
    · rw [he'.others k (hqchain ▸ hkL') hkL, he.others k (hpchain ▸ hkL) hkL']

end Restores

end Pool

end Machine6809
