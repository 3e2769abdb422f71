import Machine6809.Proofs.Pool.Carried
import Machine6809.Proofs.Pool.Reading

/-!
# Chains of one kind

Two bits are settled for a whole chain when it is allocated: whether it is a page, and whether it is
read-only. Nothing states them for the chain; each member has its own copy. `Pool.Kinds` says that
the copies agree, and that no one has written to a read-only node, which is therefore blank.

A member gets its bits in two ways. In an allocation all members get them from the template
(`allocate_content`), and a node that is put into a chain gets them from its neighbour
(`inheritedContent`). An edit of a strand keeps the kinds if all that is new in the strand is of
the kind of what was there (`Kinds.edits`).
-/

namespace Machine6809

namespace Node

variable {n : ℕ} {a b : Node n}

/-- The node is blank if it is read-only. -/
def IsSilent (node : Node n) : Prop := node.status.readOnly = true → node.payload = blank

/-- The bits that are inherited are part of the content. -/
theorem inherited_of_content (h : a.content = b.content) :
    a.status.inherited = b.status.inherited := congrArg (fun c => c.1.inherited) h

/-- Being silent is a matter of the content as well. -/
theorem IsSilent.of_content (hb : b.IsSilent) (h : a.content = b.content) : a.IsSilent := by
  intro ha
  have hro : a.status.readOnly = b.status.readOnly := congrArg (fun c => c.1.readOnly) h
  calc a.payload
      = b.payload := congrArg Prod.snd h
    _ = blank := hb (hro.symm.trans ha)

end Node

namespace Pool

variable {n : ℕ}

/-! ### What an allocation writes -/

/-- Appending nodes leaves contents alone but for those of the claimed nodes. -/
theorem extend_content (root : Fin n) (template : NodeStatus) (k : Fin n) :
    ∀ (count : ℕ) (tail : Fin n) (p : Pool n),
      ((extend root template count tail p).2.node k).content = (p.node k).content ∨
        ((extend root template count tail p).2.node k).content = claimedContent template := by
  intro count
  -- round by round; a node is claimed in one of them, or in none
  induction count with
  | zero => exact fun _ _ => .inl rfl
  | succ count ih =>
    intro tail p
    rw [extend]
    cases p.firstFree with
    | none => exact .inl rfl
    | some i =>
      rcases ih i ((p.claim i root template).link tail i) with h | h
      · -- the round has claimed node `i` and left the contents of the others alone
        by_cases hk : k = i
        · right
          refine h.trans ?_
          rw [link_content, node_claim, if_pos hk]
          rfl
        · left
          refine h.trans ?_
          rw [link_content, node_claim, if_neg hk]
      · exact .inr h

/-- An allocation writes the template to some nodes, and leaves the contents of the others alone. -/
theorem allocate_content (p : Pool n) (count : ℕ) (template : NodeStatus) (k : Fin n) :
    ((p.allocate count template).2.node k).content = (p.node k).content ∨
      ((p.allocate count template).2.node k).content = claimedContent template := by
  unfold allocate
  split_ifs with hc
  · exact .inl rfl
  · cases p.firstFree with
    | none => exact .inl rfl
    | some root =>
      dsimp only
      rcases extend_content root template k (count - 1) root (p.claim root root template) with h | h
      · -- not appended: it is the root, which has been claimed, or as it was
        by_cases hk : k = root
        · right
          refine h.trans ?_
          rw [node_claim, if_pos hk]
          rfl
        · left
          refine h.trans ?_
          rw [node_claim, if_neg hk]
      · exact .inr h

/-! ### Kinds -/

/-- The nodes in the list are of the kind `s`: the page bit and the read-only bit are those of
`s`. -/
def AreOfKind (p : Pool n) (s : NodeStatus) (L : List (Fin n)) : Prop :=
  ∀ i ∈ L, (p.node i).status.inherited = s

/-- The members of each strand are of one kind, and what is read-only is blank. -/
structure Kinds (p : Pool n) (S : List (List (Fin n))) : Prop where
  kind : ∀ L ∈ S, ∃ s, p.AreOfKind s L
  silent : ∀ i, (p.node i).IsSilent

section Kinds

variable {p q : Pool n} {S T : List (List (Fin n))} {A B L L' : List (Fin n)}
  {i new root : Fin n} {s : NodeStatus}

theorem kinds_empty : (empty : Pool n).Kinds [] := by
  refine ⟨fun _ hL => absurd hL List.not_mem_nil, fun i hi => ?_⟩
  rw [node_empty] at hi
  exact absurd hi Bool.false_ne_true

theorem Kinds.perm (hk : p.Kinds S) (hST : S.Perm T) : p.Kinds T :=
  ⟨fun L hL => hk.kind L (hST.mem_iff.mpr hL), hk.silent⟩

/-- A read-only node is in a chain. -/
theorem Layout.isAllocated_of_readOnly (hl : p.Layout S)
    (hi : (p.node i).status.readOnly = true) : (p.node i).isAllocated = true := by
  refine hl.isAllocated_of_not_isUnused fun hu => ?_
  rw [hu.status] at hi
  exact Bool.false_ne_true hi

/-- **An edit keeps the kinds** if what is new in the strand is blank and of the kind of what was
there. -/
theorem Kinds.edits (hk : p.Kinds (L :: T)) (he : Edits p q L L' T) (hold : p.AreOfKind s L)
    (hnew : ∀ k ∈ L', k ∉ L → (q.node k).status.inherited = s ∧ (q.node k).payload = Node.blank) :
    q.Kinds (L' :: T) := by
  refine ⟨fun M hM => ?_, fun k hro => ?_⟩
  · rcases List.mem_cons.mp hM with rfl | hMT
    · refine ⟨s, fun k hkM => ?_⟩
      by_cases hkL : k ∈ L
      · rw [Node.inherited_of_content (he.beside.content k hkL hkM)]
        exact hold k hkL
      · exact (hnew k hkM hkL).1
    · -- the other strands have no part in the edit
      obtain ⟨t, ht⟩ := hk.kind M (List.mem_cons_of_mem L hMT)
      refine ⟨t, fun k hkM => ?_⟩
      have hkT : k ∈ T.flatten := List.mem_flatten_of_mem hMT hkM
      rw [he.beside.others k (fun hkL => he.before.not_mem_of_mem hkL hkT)
        (fun hkL' => he.after.not_mem_of_mem hkL' hkT)]
      exact ht k hkM
  · have ha : (q.node k).isAllocated = true := he.after.isAllocated_of_readOnly hro
    by_cases hp : (p.node k).isAllocated = true
    · exact (hk.silent k).of_content (he.carries.content k ⟨hp, ha⟩) hro
    · -- a node that is in a chain only now is one of the new ones
      have hmem : k ∈ (L' :: T).flatten := (he.after.allocated_iff k).mp ha
      rw [he.before.allocated_iff, List.flatten_cons, List.mem_append, not_or] at hp
      rw [List.flatten_cons, List.mem_append] at hmem
      exact (hnew k (hmem.resolve_right hp.2) hp.1).2

/-! ### Each operation -/

/-- A new chain is of the kind of its template. -/
theorem Kinds.gains (hk : p.Kinds S) (hc : p.Chained S) (hg : Gains p q S root B)
    {template : NodeStatus} (hcontent : ∀ k, (q.node k).content = (p.node k).content ∨
      (q.node k).content = claimedContent template) : q.Kinds ((root :: B) :: S) := by
  have hnil : p.Kinds ([] :: S) := by
    refine ⟨fun L hL => ?_, hk.silent⟩
    rcases List.mem_cons.mp hL with rfl | hL
    · exact ⟨NodeStatus.none, fun _ hi => absurd hi List.not_mem_nil⟩
    · exact hk.kind L hL
  refine hnil.edits (hg.edits hc) (s := template.inherited)
    (fun _ hi => absurd hi List.not_mem_nil) fun k hkB _ => ?_
  -- the node was free, so its content has changed, and there is only one thing it can be
  have hnew : (q.node k).content = claimedContent template := by
    refine (hcontent k).resolve_left fun hsame => ?_
    have hp : (p.node k).isAllocated = true := by
      rw [← Node.isAllocated_congr hsame]
      exact hg.chained.isAllocated hkB
    exact hg.chained.not_mem_of_mem hkB ((hc.allocated_iff k).mp hp)
  exact ⟨congrArg (fun c => c.1.inherited) hnew, congrArg Prod.snd hnew⟩

/-- Allocation keeps chains of one kind, however it ends. -/
theorem Kinds.allocate (hk : p.Kinds S) (hc : p.Chained S) (count : ℕ) (template : NodeStatus) :
    ∃ S', (p.allocate count template).2.Chained S' ∧ (p.allocate count template).2.Kinds S' := by
  have hcontent := p.allocate_content count template
  have hcases := hc.allocate count template
  generalize p.allocate count template = x at hcontent hcases ⊢
  cases hcases with
  | badLength => exact ⟨S, hc, hk⟩
  | noneFree hfree => exact ⟨S, hc, hk⟩
  | built gains length_eq => exact ⟨_, gains.chained, hk.gains hc gains hcontent⟩
  | exhausted gains length_lt hfree => exact ⟨_, gains.chained, hk.gains hc gains hcontent⟩

/-- So does freeing: what is left of the chain is nothing. -/
theorem Kinds.releaseChain (hk : p.Kinds ((i :: B) :: T)) (hc : p.Chained ((i :: B) :: T)) :
    (p.releaseChain i).2.Kinds ([] :: T) := by
  obtain ⟨s, hs⟩ := hk.kind _ List.mem_cons_self
  exact hk.edits hc.edits_releaseChain hs fun k hk' => absurd hk' List.not_mem_nil

/-- Removing a node leaves a chain of the same kind. -/
theorem Kinds.remove (hk : p.Kinds ((A ++ i :: B) :: T)) (hc : p.Chained ((A ++ i :: B) :: T)) :
    (p.remove i).Kinds ((A ++ B) :: T) := by
  obtain ⟨s, hs⟩ := hk.kind _ List.mem_cons_self
  refine hk.edits hc.edits_remove hs fun k hkAB hkL => absurd ?_ hkL
  simp only [List.mem_append, List.mem_cons] at hkAB ⊢
  tauto

/-- What a node takes over from its neighbour makes it of the neighbour's kind. -/
theorem kind_of_inheritedContent (hcontent : (q.node new).content = inheritedContent (p.node i))
    (hi : (p.node i).status.inherited = s) :
    (q.node new).status.inherited = s ∧ (q.node new).payload = Node.blank := by
  subst hi
  exact ⟨congrArg (fun c => c.1.inherited) hcontent, congrArg Prod.snd hcontent⟩

/-- A node put in front of another inherits its kind. -/
theorem Kinds.insertBefore (hk : p.Kinds ((A ++ i :: B) :: T))
    (hc : p.Chained ((A ++ i :: B) :: T)) (hnew : p.firstFree = some new) :
    (p.insertBefore new i).Kinds ((A ++ new :: i :: B) :: T) := by
  obtain ⟨s, hs⟩ := hk.kind _ List.mem_cons_self
  refine hk.edits (hc.edits_insertBefore hnew) hs fun k hkL' hkL => ?_
  obtain rfl : k = new := by
    simp only [List.mem_append, List.mem_cons, not_or] at hkL' hkL
    tauto
  exact kind_of_inheritedContent (hc.insertBefore_content_self hnew) (hs i (by simp))

theorem Kinds.insertAfter (hk : p.Kinds ((A ++ i :: B) :: T))
    (hc : p.Chained ((A ++ i :: B) :: T)) (hnew : p.firstFree = some new) :
    (p.insertAfter new i).Kinds ((A ++ i :: new :: B) :: T) := by
  obtain ⟨s, hs⟩ := hk.kind _ List.mem_cons_self
  refine hk.edits (hc.edits_insertAfter hnew) hs fun k hkL' hkL => ?_
  obtain rfl : k = new := by
    simp only [List.mem_append, List.mem_cons, not_or] at hkL' hkL
    tauto
  exact kind_of_inheritedContent insertAfter_content_self (hs i (by simp))

/-- A change to one node that leaves its kind alone, and its payload if it is read-only. -/
theorem Kinds.modifyNode (hk : p.Kinds S) {f : Node n → Node n}
    (hkind : (f (p.node i)).status.inherited = (p.node i).status.inherited)
    (hpayload : (p.node i).status.readOnly = true →
      (f (p.node i)).payload = (p.node i).payload) : (p.modifyNode i f).Kinds S := by
  -- the bits that chains share have not been changed anywhere
  have hsame : ∀ k, ((p.modifyNode i f).node k).status.inherited
      = (p.node k).status.inherited := by
    intro k
    rw [node_modifyNode]
    split_ifs with hki
    · rw [hkind, hki]
    · rfl
  refine ⟨fun L hL => ?_, fun k hro => ?_⟩
  · obtain ⟨s, hs⟩ := hk.kind L hL
    exact ⟨s, fun k hkL => (hsame k).trans (hs k hkL)⟩
  · -- a read-only node was read-only before, so its payload was zero and has not been changed
    have hro' : (p.node k).status.readOnly = true := by
      rw [← hro]
      exact (congrArg (fun s => s.readOnly) (hsame k)).symm
    rw [node_modifyNode]
    split_ifs with hki
    · subst hki
      rw [hpayload hro']
      exact hk.silent k hro'
    · exact hk.silent k hro'

/-- A renaming takes the kinds along. -/
theorem Kinds.renames {σ : Fin n → Fin n} (hk : p.Kinds S) (hr : Renames σ p q S) :
    q.Kinds (S.map (List.map σ)) := by
  refine ⟨fun M hM => ?_, fun k hro => ?_⟩
  · -- members carry their kind to their new places
    obtain ⟨L, hL, rfl⟩ := List.mem_map.mp hM
    obtain ⟨s, hs⟩ := hk.kind L hL
    refine ⟨s, fun k hkM => ?_⟩
    obtain ⟨l, hl, rfl⟩ := List.mem_map.mp hkM
    rw [Node.inherited_of_content (hr.content l (List.mem_flatten_of_mem hL hl))]
    exact hs l hl
  · -- a read-only node is a member, so it carries the zeros it had
    have hmem : k ∈ (S.map (List.map σ)).flatten :=
      (hr.chained.allocated_iff k).mp (hr.chained.isAllocated_of_readOnly hro)
    rw [← List.map_flatten] at hmem
    obtain ⟨l, hl, rfl⟩ := List.mem_map.mp hmem
    exact (hk.silent l).of_content (hr.content l hl) hro

end Kinds

end Pool

end Machine6809
