import Machine6809.Proofs.Pool.Splice

/-!
# Edits of a single chain

`Pool.Edited` says in terms of handles and chains that one chain has become another list and that
nothing else has happened to the pool. `Chained.edited` obtains it from the invariant before and
after, so that each operation on a chain is settled by the list that it leaves; the three
operations on a chain are then instances, with what they do to the node that comes or goes.
-/

namespace Machine6809

namespace Pool

variable {n : ℕ}

/-- From pool `p` to pool `q` the chain with handle `h` has become the list `L'`. Its handle is the
first node of that list, which is the root of all members; nodes that stay keep their contents,
and nodes of neither list are the same. The other chains have their handles and their nodes. -/
structure Edited (p q : Pool n) (h : Fin n) (L' : List (Fin n)) : Prop where
  chain_eq : ∀ r, L'.head? = some r → q.chain r = L'
  root_eq : ∀ i ∈ L', (q.node i).root = L'.head?
  content_eq : ∀ i ∈ p.chain h, i ∈ L' → (q.node i).content = (p.node i).content
  others : ∀ i, i ∉ p.chain h → i ∉ L' → q.node i = p.node i
  handle_iff : ∀ g, q.isHandle g = true ↔ L'.head? = some g ∨ (g ≠ h ∧ p.isHandle g = true)
  others_chain : ∀ g, g ≠ h → p.isHandle g = true → q.chain g = p.chain g

section Edited

variable {p q : Pool n} {T : List (List (Fin n))} {A B L L' : List (Fin n)} {h i new : Fin n}

/-- An edit that leaves the other chains of the invariant alone leaves them alone altogether. -/
theorem Chained.edited (hp : p.Chained (L :: T)) (hh : L.head? = some h)
    (hq : q.Chained (L' :: T)) (hs : SameBeside p q L L') : p.Edited q h L' := by
  have hchain : p.chain h = L := hp.chain_eq_of_mem List.mem_cons_self hh
  -- the other chains have other handles
  have hne : ∀ M ∈ T, ∀ g, M.head? = some g → g ≠ h := fun M hM g hg he =>
    hp.not_mem_of_mem (List.mem_of_mem_head? hh)
      (List.mem_flatten_of_mem hM (he ▸ List.mem_of_mem_head? hg))
  have hother : ∀ g, g ≠ h → p.isHandle g = true → ∃ M ∈ T, M.head? = some g := by
    intro g hgh hg
    obtain ⟨M, hM, hMg⟩ := hp.isHandle_iff.mp hg
    rcases List.mem_cons.mp hM with rfl | hMT
    · exact absurd (Option.some.inj (hMg.symm.trans hh)) hgh
    · exact ⟨M, hMT, hMg⟩
  -- the chain has become `L'`, and the other chains are as before
  refine ⟨fun r hr => hq.chain_eq_of_mem List.mem_cons_self hr, hq.root_eq L' List.mem_cons_self,
    ?_, ?_, fun g => ⟨fun hg => ?_, fun hg => ?_⟩, fun g hgh hg => ?_⟩
  · rw [hchain]
    exact hs.content
  · rw [hchain]
    exact hs.others
  · obtain ⟨M, hM, hMg⟩ := hq.isHandle_iff.mp hg
    rcases List.mem_cons.mp hM with rfl | hMT
    · exact Or.inl hMg
    · exact Or.inr ⟨hne M hMT g hMg,
        hp.isHandle_iff.mpr ⟨M, List.mem_cons_of_mem L hMT, hMg⟩⟩
  · rcases hg with hg | ⟨hgh, hg⟩
    · exact hq.isHandle_iff.mpr ⟨L', List.mem_cons_self, hg⟩
    · obtain ⟨M, hM, hMg⟩ := hother g hgh hg
      exact hq.isHandle_iff.mpr ⟨M, List.mem_cons_of_mem L' hM, hMg⟩
  · obtain ⟨M, hM, hMg⟩ := hother g hgh hg
    rw [hq.chain_eq_of_mem (List.mem_cons_of_mem L' hM) hMg,
      hp.chain_eq_of_mem (List.mem_cons_of_mem L hM) hMg]

/-- The node is new in its chain: it was free, is blank and not locked, and has taken over the page
and read-only bits of `neighbour`. -/
structure Joins (p q : Pool n) (neighbour new : Fin n) : Prop where
  was_free : (p.node new).isAllocated = false
  allocated : (q.node new).isAllocated = true
  payload : (q.node new).payload = Node.blank
  paged : (q.node new).status.paged = (p.node neighbour).status.paged
  readOnly : (q.node new).status.readOnly = (p.node neighbour).status.readOnly
  unlocked : (q.node new).status.locked = false

/-- The content settles how a node has joined. -/
theorem joins_of_content (hfree : (p.node new).isAllocated = false)
    (hc : (q.node new).content = inheritedContent (p.node i)) : p.Joins q i new := by
  have hstatus := congrArg Prod.fst hc
  exact
    { was_free := hfree
      allocated := congrArg (fun s => s.allocated) hstatus
      payload := congrArg Prod.snd hc
      paged := congrArg (fun s => s.paged) hstatus
      readOnly := congrArg (fun s => s.readOnly) hstatus
      unlocked := congrArg (fun s => s.locked) hstatus }

/-- Inserting in front of a member, told as an edit of the list. -/
theorem Chained.edited_insertBefore (hp : p.Chained ((A ++ i :: B) :: T))
    (hh : (A ++ i :: B).head? = some h) (hnew : p.firstFree = some new) :
    p.Edited (p.insertBefore new i) h (A ++ new :: i :: B) ∧
      p.Joins (p.insertBefore new i) i new :=
  ⟨hp.edited hh (hp.insertBefore hnew).1 (hp.insertBefore hnew).2,
    joins_of_content (isAllocated_of_firstFreeFrom p.hint hnew).1
      (hp.insertBefore_content_self hnew)⟩

/-- Inserting behind a member, told as an edit of the list. -/
theorem Chained.edited_insertAfter (hp : p.Chained ((A ++ i :: B) :: T))
    (hh : (A ++ i :: B).head? = some h) (hnew : p.firstFree = some new) :
    p.Edited (p.insertAfter new i) h (A ++ i :: new :: B) ∧
      p.Joins (p.insertAfter new i) i new :=
  ⟨hp.edited hh (hp.insertAfter hnew).1 (hp.insertAfter hnew).2,
    joins_of_content (isAllocated_of_firstFreeFrom p.hint hnew).1 insertAfter_content_self⟩

/-- Removing a member, told as an edit of the list. -/
theorem Chained.edited_remove (hp : p.Chained ((A ++ i :: B) :: T))
    (hh : (A ++ i :: B).head? = some h) :
    p.Edited (p.remove i) h (A ++ B) ∧ (p.remove i).node i = Node.free :=
  ⟨hp.edited hh hp.remove.1 hp.remove.2, hp.toLayout.node_remove_self⟩

end Edited

end Pool

end Machine6809
