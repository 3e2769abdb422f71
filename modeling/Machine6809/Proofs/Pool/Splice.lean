import Machine6809.Proofs.Pool.Chains

/-!
# Splicing as list editing

A chain that the pool holds as `A ++ i :: B` is `A ++ B` after node `i` has been removed, and
`A ++ new :: i :: B` or `A ++ i :: new :: B` after the free node `new` has been put in front of or
behind it (`Chained.remove`, `Chained.insertBefore`, `Chained.insertAfter`). Nothing else about
the pool changes (`SameBeside`): the nodes that stay in the chain keep their contents, and the
nodes that have no part in it are the same.

The proofs follow the operations edit by edit through the layouts in between. Only when the list
has a new head does the last edit concern the roots.
-/

namespace Machine6809

namespace Pool

variable {n : ℕ}

/-- Between two pools the chain `L` has become `L'`, and nothing else has happened: nodes that
stay keep their contents, and nodes that are in neither list are the same. -/
structure SameBeside (p q : Pool n) (L L' : List (Fin n)) : Prop where
  content : ∀ k ∈ L, k ∈ L' → (q.node k).content = (p.node k).content
  others : ∀ k, k ∉ L → k ∉ L' → q.node k = p.node k

/-! ### Searching a free node -/

/-- The search from a place upward finds a free node, and everything between is allocated. -/
theorem isAllocated_of_firstFreeFrom {p : Pool n} {i : Fin n} (m : ℕ) :
    p.firstFreeFrom m = some i → (p.node i).isAllocated = false ∧
      ∀ k : Fin n, m ≤ k.val → k.val < i.val → (p.node k).isAllocated = true := by
  -- along the search, which looks at one place after the other
  induction m using firstFreeFrom.induct p with
  | case1 m hm ha ih =>
    intro h
    rw [firstFreeFrom, dif_pos hm, if_pos ha] at h
    obtain ⟨hfree, hbelow⟩ := ih h
    refine ⟨hfree, fun k hk hki => ?_⟩
    rcases Nat.eq_or_lt_of_le hk with he | hlt
    · rwa [show k = ⟨m, hm⟩ from Fin.ext he.symm]
    · exact hbelow k hlt hki
  | case2 m hm ha =>
    intro h
    rw [firstFreeFrom, dif_pos hm, if_neg ha] at h
    -- found at the first place that is looked at
    obtain rfl := Option.some.inj h
    exact ⟨by rwa [Bool.not_eq_true] at ha, fun k hk hki => absurd hk (Nat.not_le_of_lt hki)⟩
  | case3 m hm =>
    intro h
    rw [firstFreeFrom, dif_neg hm] at h
    exact absurd h (by simp)

/-- If the search finds nothing, everything from its start upward is allocated. -/
theorem isAllocated_of_firstFreeFrom_none {p : Pool n} (m : ℕ) :
    p.firstFreeFrom m = none → ∀ k : Fin n, m ≤ k.val → (p.node k).isAllocated = true := by
  -- along the search again, which this time goes on to the end
  induction m using firstFreeFrom.induct p with
  | case1 m hm ha ih =>
    intro h k hk
    rw [firstFreeFrom, dif_pos hm, if_pos ha] at h
    rcases Nat.eq_or_lt_of_le hk with he | hlt
    · rwa [show k = ⟨m, hm⟩ from Fin.ext he.symm]
    · exact ih h k hlt
  | case2 m hm ha =>
    intro h
    rw [firstFreeFrom, dif_pos hm, if_neg ha] at h
    exact absurd h (by simp)
  | case3 m hm =>
    intro _ k hk
    exact absurd (lt_of_le_of_lt hk k.isLt) hm

section Free

variable {p : Pool n} {S : List (List (Fin n))} {i : Fin n}

/-- The node that the search finds is free, and all before it are allocated. -/
theorem Layout.firstFree_spec (h : p.Layout S) (hi : p.firstFree = some i) :
    i ∉ S.flatten ∧ ∀ k : Fin n, k.val < i.val → k ∈ S.flatten := by
  obtain ⟨hfree, hbelow⟩ := isAllocated_of_firstFreeFrom p.hint hi
  refine ⟨h.not_mem_of_free hfree, fun k hk => ?_⟩
  rcases Nat.lt_or_ge k.val p.hint with hlt | hge
  · exact h.below_hint k hlt
  · exact (h.allocated_iff k).mp (hbelow k hge hk)

/-- The search fails only if no node is free. -/
theorem Layout.firstFree_eq_none_iff (h : p.Layout S) :
    p.firstFree = none ↔ ∀ k, (p.node k).isAllocated = true := by
  constructor
  · intro hn k
    -- below the hint all nodes are in chains, and from the hint upward the search has been
    rcases Nat.lt_or_ge k.val p.hint with hlt | hge
    · exact (h.allocated_iff k).mpr (h.below_hint k hlt)
    · exact isAllocated_of_firstFreeFrom_none p.hint hn k hge
  · intro hall
    cases hf : p.firstFree with
    | none => rfl
    | some i =>
      exact absurd (hall i) (by rw [(isAllocated_of_firstFreeFrom p.hint hf).1]; simp)

/-- The search succeeds if some node is free. -/
theorem Layout.exists_firstFree (h : p.Layout S) (hi : ∃ k, (p.node k).isAllocated = false) :
    ∃ new, p.firstFree = some new := by
  rw [← Option.ne_none_iff_exists']
  intro hnone
  obtain ⟨k, hk⟩ := hi
  exact absurd (hk.symm.trans (h.firstFree_eq_none_iff.mp hnone k)) (by simp)

end Free

/-! ### Giving a chain its root -/

/-- Nodes that get a new root change in nothing else. -/
theorem node_setRoots (root : Fin n) : ∀ (L : List (Fin n)) (p : Pool n) (k : Fin n),
    (setRoots root L p).node k
      = if k ∈ L then { p.node k with root := some root } else p.node k := by
  intro L
  induction L with
  | nil => exact fun _ _ => (if_neg List.not_mem_nil).symm
  | cons i L ih =>
    intro p k
    change (setRoots root L (p.modifyNode i _)).node k = _
    rw [ih, node_modifyNode]
    by_cases hk : k = i
    · -- giving the same root twice does not matter
      have hm : k ∈ i :: L := hk ▸ List.mem_cons_self
      rw [if_pos hk, if_pos hm, hk]
      split_ifs <;> rfl
    · rw [if_neg hk]
      by_cases hkL : k ∈ L
      · rw [if_pos hkL, if_pos (List.mem_cons_of_mem i hkL)]
      · rw [if_neg hkL, if_neg (fun hm => hkL ((List.mem_cons.mp hm).resolve_left hk))]

/-- Giving members of chains other roots does not change the layout. -/
theorem Layout.setRoots {S : List (List (Fin n))} (root : Fin n) :
    ∀ {L : List (Fin n)} {p : Pool n}, p.Layout S → (∀ i ∈ L, i ∈ S.flatten) →
      (Pool.setRoots root L p).Layout S := by
  intro L
  induction L with
  | nil => exact fun h _ => h
  | cons i L ih =>
    intro p h hL
    refine ih (h.modifyNode rfl rfl rfl fun hu => ?_) fun k hk => hL k (List.mem_cons_of_mem i hk)
    -- members are allocated, so no free node gets a root
    have ha := (h.allocated_iff i).mpr (hL i List.mem_cons_self)
    exact absurd ha (by rw [hu.isAllocated]; simp)

/-- Roots have no part in the break marks. -/
theorem Marked.setRoots (root : Fin n) : ∀ {L : List (Fin n)} {p : Pool n}, p.Marked →
    (Pool.setRoots root L p).Marked := by
  intro L
  induction L with
  | nil => exact fun h => h
  | cons i L ih => exact fun h => ih (h.modifyNode i rfl rfl rfl rfl)

section Reroot

variable {p : Pool n} {S : List (List (Fin n))} {B : List (Fin n)} {r : Fin n}

/-- Only the members of the strand get the new root. -/
theorem Layout.node_reroot (h : p.Layout ((r :: B) :: S)) (k : Fin n) :
    (p.reroot r).node k = if k ∈ r :: B then { p.node k with root := some r } else p.node k := by
  unfold reroot
  rw [h.chain_eq (A := []), node_setRoots]

/-- A new root leaves all contents alone. -/
theorem Layout.reroot_content (h : p.Layout ((r :: B) :: S)) (k : Fin n) :
    ((p.reroot r).node k).content = (p.node k).content := by
  rw [h.node_reroot]
  split_ifs <;> rfl

/-- **A strand becomes a chain** when its first node is made the root of all members. -/
theorem Layout.reroot (h : p.Layout ((r :: B) :: S))
    (hS : ∀ L ∈ S, ∀ i ∈ L, (p.node i).root = L.head?) :
    (p.reroot r).Chained ((r :: B) :: S) := by
  have hlay : (p.reroot r).Layout ((r :: B) :: S) := by
    unfold Pool.reroot
    rw [h.chain_eq (A := [])]
    exact h.setRoots r fun i hi => List.mem_append_left _ hi
  -- the roots are right now, of this chain and of the others
  refine ⟨hlay, fun L hL i hi => ?_⟩
  rw [h.node_reroot]
  rcases List.mem_cons.mp hL with rfl | hL
  · rw [if_pos hi]
    rfl
  · -- the members of the other chains are not met on the way
    have hiL : i ∉ r :: B := fun hm => h.not_mem_of_mem hm (List.mem_flatten_of_mem hL hi)
    rw [if_neg hiL]
    exact hS L hL i hi

end Reroot

section Edit

variable {p q : Pool n} {S : List (List (Fin n))} {B L L' : List (Fin n)} {r : Fin n}

/-- An edit that keeps to one chain leaves the others as they are. -/
theorem Chained.edit (h : p.Chained (L :: S)) (hq : q.Layout (L' :: S))
    (hpq : SameBeside p q L L') (hL' : ∀ k ∈ L', (q.node k).root = L'.head?) :
    q.Chained (L' :: S) := by
  refine ⟨hq, fun M hM k hk => ?_⟩
  rcases List.mem_cons.mp hM with rfl | hM
  · exact hL' k hk
  · -- a member of another chain has no part in the edit
    have hkS := List.mem_flatten_of_mem hM hk
    rw [hpq.others k (fun hm => h.not_mem_of_mem hm hkS) (fun hm => hq.not_mem_of_mem hm hkS)]
    exact h.root_eq M (List.mem_cons_of_mem _ hM) k hk

/-- The same, when the chain has got a new head and its members are told about it. -/
theorem Chained.edit_reroot (h : p.Chained (L :: S)) (hq : q.Layout ((r :: B) :: S))
    (hpq : SameBeside p q L (r :: B)) :
    (q.reroot r).Chained ((r :: B) :: S) ∧ SameBeside p (q.reroot r) L (r :: B) := by
  refine ⟨hq.reroot fun M hM k hk => ?_, fun k hk hk' => ?_, fun k hk hk' => ?_⟩
  · -- the other chains have kept their roots
    have hkS := List.mem_flatten_of_mem hM hk
    rw [hpq.others k (fun hm => h.not_mem_of_mem hm hkS) (fun hm => hq.not_mem_of_mem hm hkS)]
    exact h.root_eq M (List.mem_cons_of_mem _ hM) k hk
  · -- contents and bystanders are not touched by the new roots
    rw [hq.reroot_content]
    exact hpq.content k hk hk'
  · rw [hq.node_reroot, if_neg hk']
    exact hpq.others k hk hk'

end Edit

/-! ### Taking a node out -/

/-- Cut a node out of its chain and join what was around it. The node itself stays allocated. -/
def cutOut (p : Pool n) (i : Fin n) : Pool n :=
  let prev := (p.node i).prev
  let next := (p.node i).next
  let q := (p.unlinkFrom prev i).unlinkTo i next
  match prev with
  | some a => q.linkTo a next
  | none => q

section Remove

variable {p : Pool n} {S : List (List (Fin n))} {A B : List (Fin n)} {i : Fin n}

/-- Removing is cutting out and releasing, and a new root if the head has gone. -/
theorem remove_eq_cutOut (p : Pool n) (i : Fin n) :
    p.remove i =
      match (p.node i).prev, (p.node i).next with
      | none, some b => ((p.cutOut i).release i).reroot b
      | _, _ => (p.cutOut i).release i := by
  unfold remove cutOut
  cases (p.node i).prev with
  | none => cases (p.node i).next <;> rfl
  | some a => cases (p.node i).next <;> rfl

/-- Cutting out sets and cuts links only, so contents stay. -/
@[simp] theorem cutOut_content (p : Pool n) (i k : Fin n) :
    ((p.cutOut i).node k).content = (p.node k).content := by
  unfold cutOut
  cases (p.node i).prev with
  | none => rw [unlinkTo_content, unlinkFrom_content]
  | some a => rw [linkTo_content, unlinkTo_content, unlinkFrom_content]

/-- It leaves the roots alone as well. -/
@[simp] theorem cutOut_root (p : Pool n) (i k : Fin n) :
    ((p.cutOut i).node k).root = (p.node k).root := by
  unfold cutOut
  cases (p.node i).prev with
  | none => rw [unlinkTo_root, unlinkFrom_root]
  | some a => rw [linkTo_root, unlinkTo_root, unlinkFrom_root]

/-- Cutting out brings the marks of all nodes concerned up to date. -/
theorem Marked.cutOut (h : p.Marked) (i : Fin n) : (p.cutOut i).Marked := by
  unfold Pool.cutOut
  have hq : ∀ a?, ((p.unlinkFrom a? i).unlinkTo i (p.node i).next).Marked :=
    fun a? => (h.unlinkFrom a? i).unlinkTo i _
  cases (p.node i).prev with
  | none => exact hq none
  | some a => exact (hq (some a)).linkTo a _

/-- **Cutting a node out** leaves the rest of its chain in one piece. -/
theorem Layout.cutOut (h : p.Layout ((A ++ i :: B) :: S)) :
    (p.cutOut i).Layout ([i] :: (A ++ B) :: S) := by
  -- the node is alone after both cuts; what was around it is joined again
  have hto := h.unlinkFrom.swap.unlinkTo (A := []) (i := i)
  unfold Pool.cutOut
  rw [h.prev_eq, h.next_eq]
  rcases List.eq_nil_or_concat A with rfl | ⟨A', a, rfl⟩
  · exact layout_nil_cons.mp (hto.perm (perm_third _ _ _ _))
  · rw [List.concat_eq_append] at hto ⊢
    rw [List.getLast?_concat] at hto ⊢
    have hjoin : ((A' ++ [a]) :: B :: [i] :: S).Perm ([i] :: B :: (A' ++ [a]) :: S) :=
      List.reverse_perm [[i], B, A' ++ [a]] |>.append_right S
    rw [List.append_assoc, List.singleton_append]
    exact (hto.perm hjoin.symm).linkTo.swap

/-- Nodes outside the chain have no part in cutting out. -/
theorem Layout.cutOut_node_of_not_mem (h : p.Layout ((A ++ i :: B) :: S)) {k : Fin n}
    (hk : k ∉ A ++ i :: B) : (p.cutOut i).node k = p.node k := by
  rw [List.mem_append, List.mem_cons, not_or, not_or] at hk
  obtain ⟨hA, hi, hB⟩ := hk
  -- the node is neither of the neighbours
  have ha : ∀ a, A.getLast? = some a → k ≠ a :=
    fun a he hka => hA (hka ▸ List.mem_of_mem_getLast? he)
  have hb : ∀ b, B.head? = some b → k ≠ b :=
    fun b he hkb => hB (hkb ▸ List.mem_of_mem_head? he)
  -- neither cut concerns it, nor does the link that joins the ends
  have hq : ((p.unlinkFrom A.getLast? i).unlinkTo i B.head?).node k = p.node k := by
    rw [unlinkTo_node_of_ne hb hi, unlinkFrom_node_of_ne ha hi]
  unfold Pool.cutOut
  rw [h.prev_eq, h.next_eq]
  cases hl : A.getLast? with
  | none => rwa [hl] at hq
  | some a =>
    rw [hl] at hq
    exact (linkTo_node_of_ne hb (ha a hl)).trans hq

/-- What cutting out and releasing a node leaves alone. -/
theorem Layout.sameBeside_cutOut (h : p.Layout ((A ++ i :: B) :: S)) :
    SameBeside p ((p.cutOut i).release i) (A ++ i :: B) (A ++ B) where
  content := fun k _ hk => by
    have hki : k ≠ i := fun he => h.not_mem_both (he ▸ hk)
    rw [node_release, if_neg hki, cutOut_content]
  others := fun k hk _ => by
    have hki : k ≠ i := fun he => hk (he ▸ by simp)
    rw [node_release, if_neg hki, h.cutOut_node_of_not_mem hk]

/-- **Removing a node** takes it out of its chain, and out of nothing else. -/
theorem Chained.remove (h : p.Chained ((A ++ i :: B) :: S)) :
    (p.remove i).Chained ((A ++ B) :: S) ∧ SameBeside p (p.remove i) (A ++ i :: B) (A ++ B) := by
  have hlay := h.toLayout.cutOut.release
  have hbeside := h.toLayout.sameBeside_cutOut
  have hroot : ∀ k ∈ A ++ B,
      (((p.cutOut i).release i).node k).root = (A ++ i :: B).head? := by
    intro k hk
    have hki : k ≠ i := fun he => h.not_mem_both (he ▸ hk)
    have hm : k ∈ A ++ i :: B := by
      rcases List.mem_append.mp hk with hA | hB
      · exact List.mem_append_left _ hA
      · exact List.mem_append_right _ (List.mem_cons_of_mem i hB)
    rw [node_release, if_neg hki, cutOut_root]
    exact h.root_eq _ List.mem_cons_self k hm
  rw [remove_eq_cutOut, h.prev_eq, h.next_eq]
  cases A with
  | cons a A =>
    -- the head stays
    rw [List.getLast?_cons]
    exact ⟨h.edit hlay hbeside hroot, hbeside⟩
  | nil =>
    cases B with
    | nil =>
      -- the chain is gone
      exact ⟨h.edit hlay hbeside fun k hk => absurd hk List.not_mem_nil, hbeside⟩
    | cons b B =>
      -- the next node is the new head
      exact h.edit_reroot hlay hbeside

/-- The removed node is as it was before it was ever used. -/
theorem Layout.node_remove_self (h : p.Layout ((A ++ i :: B) :: S)) :
    (p.remove i).node i = Node.free := by
  rw [remove_eq_cutOut, h.prev_eq, h.next_eq]
  have hrel : ((p.cutOut i).release i).node i = Node.free := by
    rw [node_release, if_pos rfl]
  -- giving a new head to what is left does not touch the removed node
  cases A with
  | cons a A =>
    rw [List.getLast?_cons]
    exact hrel
  | nil =>
    cases B with
    | nil => exact hrel
    | cons b B =>
      have hi : i ∉ b :: B := h.not_mem_both
      change (((p.cutOut i).release i).reroot b).node i = Node.free
      rw [Layout.node_reroot h.cutOut.release, if_neg hi]
      exact hrel

/-- Removing a node keeps a pool marked. -/
theorem Marked.remove (h : p.Marked) (i : Fin n) : (p.remove i).Marked := by
  have hrel := (h.cutOut i).release i
  rw [remove_eq_cutOut]
  cases (p.node i).prev with
  | some a => exact hrel
  | none =>
    cases (p.node i).next with
    | none => exact hrel
    | some b => exact hrel.setRoots b

end Remove

/-! ### Putting a node in -/

/-- The content of a node that is put in beside another: blank, and with the page and read-only
bits of its neighbour. -/
def inheritedContent (node : Node n) : NodeStatus × Vector Byte payloadSize :=
  ({ node.status.inherited with allocated := true }, Node.blank)

/-- Put a free node in front of another, without a change of roots. -/
def putBefore (p : Pool n) (new i : Fin n) : Pool n :=
  let prev := (p.node i).prev
  (((p.claimBeside new i).unlinkFrom prev i).linkFrom prev new).link new i

section Insert

variable {p : Pool n} {S : List (List (Fin n))} {A B : List (Fin n)} {new i k : Fin n}

/-- Inserting in front of the head makes the new node the root of all members. -/
theorem insertBefore_eq_putBefore (p : Pool n) (new i : Fin n) :
    p.insertBefore new i =
      match (p.node i).prev with
      | some _ => p.putBefore new i
      | none => (p.putBefore new i).reroot new := by
  unfold insertBefore putBefore
  cases (p.node i).prev <;> rfl

/-- A claimed node takes over two bits of the neighbour. -/
theorem claimBeside_content_self : ((p.claimBeside new i).node new).content
    = inheritedContent (p.node i) := by
  unfold claimBeside
  rw [node_claim, if_pos rfl]
  rfl

/-- Claiming concerns the claimed node only. -/
theorem claimBeside_node_of_ne (hk : k ≠ new) : (p.claimBeside new i).node k = p.node k := by
  unfold claimBeside
  rw [node_claim, if_neg hk]

/-- It belongs to the neighbour's chain from the start. -/
theorem claimBeside_root_self : ((p.claimBeside new i).node new).root = some (p.rootOf i) := by
  unfold claimBeside
  rw [node_claim, if_pos rfl]

/-- What comes after the claim sets and cuts links only. -/
@[simp] theorem putBefore_content :
    ((p.putBefore new i).node k).content = ((p.claimBeside new i).node k).content := by
  unfold putBefore
  rw [link_content, linkFrom_content, unlinkFrom_content]

/-- So roots are those after the claim. -/
@[simp] theorem putBefore_root :
    ((p.putBefore new i).node k).root = ((p.claimBeside new i).node k).root := by
  unfold putBefore
  rw [link_root, linkFrom_root, unlinkFrom_root]

/-- The same holds of putting a node behind another. -/
@[simp] theorem insertAfter_content :
    ((p.insertAfter new i).node k).content = ((p.claimBeside new i).node k).content := by
  unfold insertAfter
  rw [link_content, linkTo_content, unlinkTo_content]

@[simp] theorem insertAfter_root :
    ((p.insertAfter new i).node k).root = ((p.claimBeside new i).node k).root := by
  unfold insertAfter
  rw [link_root, linkTo_root, unlinkTo_root]

/-- A claimed node is a strand of its own at first. -/
theorem Layout.claimBeside (h : p.Layout S) (hnew : p.firstFree = some new) (i : Fin n) :
    (p.claimBeside new i).Layout ([new] :: S) :=
  h.claim (h.firstFree_spec hnew).1 (h.firstFree_spec hnew).2 _ _

/-- Putting a node in front of another puts it there in the layout. -/
theorem Layout.putBefore (h : p.Layout ((A ++ i :: B) :: S)) (hnew : p.firstFree = some new) :
    (p.putBefore new i).Layout ((A ++ new :: i :: B) :: S) := by
  -- claim, cut in front of `i`, join what was before to the new node, and that to `i`
  have hcut := (h.claimBeside hnew i).swap.unlinkFrom
  have hput := (hcut.perm (T := A :: [new] :: (i :: B) :: S)
    (List.Perm.cons A (List.Perm.swap [new] (i :: B) S))).linkFrom
  unfold Pool.putBefore
  rw [h.prev_eq]
  exact hput.link

/-- **Putting a node behind another** puts it there in the layout. -/
theorem Layout.insertAfter (h : p.Layout ((A ++ i :: B) :: S)) (hnew : p.firstFree = some new) :
    (p.insertAfter new i).Layout ((A ++ i :: new :: B) :: S) := by
  -- claim, cut behind `i`, join the new node to what was behind, and `i` to that
  have hcut := (h.claimBeside hnew i).swap.unlinkTo
  have hperm : ((A ++ [i]) :: B :: [new] :: S).Perm ([new] :: B :: (A ++ [i]) :: S) :=
    List.reverse_perm [[new], B, A ++ [i]] |>.append_right S
  unfold Pool.insertAfter
  rw [h.next_eq]
  exact (hcut.perm hperm).linkTo (A := []) |>.swap.link

/-- Nodes outside the chain, other than the new one, have no part in it. -/
theorem Layout.putBefore_node_of_not_mem (h : p.Layout ((A ++ i :: B) :: S))
    (hk : k ∉ A ++ i :: B) (hkn : k ≠ new) : (p.putBefore new i).node k = p.node k := by
  rw [List.mem_append, List.mem_cons, not_or, not_or] at hk
  obtain ⟨hA, hi, -⟩ := hk
  -- the node is not the last one before `i` either, whose link is cut
  have ha : ∀ a, A.getLast? = some a → k ≠ a :=
    fun a he hka => hA (hka ▸ List.mem_of_mem_getLast? he)
  unfold Pool.putBefore
  rw [h.prev_eq, link_node_of_ne hkn hi, linkFrom_node_of_ne ha hkn, unlinkFrom_node_of_ne ha hi,
    claimBeside_node_of_ne hkn]

/-- Nor have they when the new node goes behind. -/
theorem Layout.insertAfter_node_of_not_mem (h : p.Layout ((A ++ i :: B) :: S))
    (hk : k ∉ A ++ i :: B) (hkn : k ≠ new) : (p.insertAfter new i).node k = p.node k := by
  rw [List.mem_append, List.mem_cons, not_or, not_or] at hk
  obtain ⟨-, hi, hB⟩ := hk
  -- the node is not the first one behind `i` either
  have hb : ∀ b, B.head? = some b → k ≠ b :=
    fun b he hkb => hB (hkb ▸ List.mem_of_mem_head? he)
  unfold Pool.insertAfter
  rw [h.next_eq, link_node_of_ne hi hkn, linkTo_node_of_ne hb hkn, unlinkTo_node_of_ne hb hi,
    claimBeside_node_of_ne hkn]

/-- A node that is about to be put in is in no chain. -/
theorem Layout.ne_new_of_mem (h : p.Layout ((A ++ i :: B) :: S)) (hnew : p.firstFree = some new)
    (hk : k ∈ A ++ i :: B) : k ≠ new :=
  fun he => (h.firstFree_spec hnew).1 (List.mem_append_left _ (he ▸ hk))

/-- What putting a node in front of another leaves alone. -/
theorem Layout.sameBeside_putBefore (h : p.Layout ((A ++ i :: B) :: S))
    (hnew : p.firstFree = some new) :
    SameBeside p (p.putBefore new i) (A ++ i :: B) (A ++ new :: i :: B) where
  content := fun k hk _ => by
    rw [putBefore_content, claimBeside_node_of_ne (h.ne_new_of_mem hnew hk)]
  others := fun k hk hk' => h.putBefore_node_of_not_mem hk fun he => hk' (he ▸ by simp)

/-- What putting a node behind another leaves alone. -/
theorem Layout.sameBeside_insertAfter (h : p.Layout ((A ++ i :: B) :: S))
    (hnew : p.firstFree = some new) :
    SameBeside p (p.insertAfter new i) (A ++ i :: B) (A ++ i :: new :: B) where
  content := fun k hk _ => by
    rw [insertAfter_content, claimBeside_node_of_ne (h.ne_new_of_mem hnew hk)]
  others := fun k hk hk' => h.insertAfter_node_of_not_mem hk fun he => hk' (he ▸ by simp)

/-- Whoever joins the chain of `i` has the root of that chain, and the others keep theirs. -/
theorem Chained.claimBeside_root (h : p.Chained ((A ++ i :: B) :: S))
    (hk : k = new ∨ k ∈ A ++ i :: B) :
    ((p.claimBeside new i).node k).root = (A ++ i :: B).head? := by
  have hi : i ∈ A ++ i :: B := by simp
  by_cases hkn : k = new
  · -- the new node is given the root that `i` has
    rw [hkn, claimBeside_root_self]
    cases hh : (A ++ i :: B).head? with
    | none => exact absurd (List.head?_eq_none_iff.mp hh) (List.ne_nil_of_mem hi)
    | some r => rw [h.rootOf_eq hi hh]
  · rw [claimBeside_node_of_ne hkn]
    exact h.root_eq _ List.mem_cons_self k (hk.resolve_left hkn)

/-- **Inserting in front of a node** puts a node there in its chain, and changes no other. -/
theorem Chained.insertBefore (h : p.Chained ((A ++ i :: B) :: S))
    (hnew : p.firstFree = some new) :
    (p.insertBefore new i).Chained ((A ++ new :: i :: B) :: S) ∧
      SameBeside p (p.insertBefore new i) (A ++ i :: B) (A ++ new :: i :: B) := by
  have hlay := h.toLayout.putBefore hnew
  have hbeside := h.toLayout.sameBeside_putBefore hnew
  rw [insertBefore_eq_putBefore, h.prev_eq]
  cases A with
  | nil =>
    -- the new node is the new head
    exact h.edit_reroot hlay hbeside
  | cons a A =>
    -- the head stays
    rw [List.getLast?_cons]
    refine ⟨h.edit hlay hbeside fun k hk => ?_, hbeside⟩
    rw [putBefore_root]
    refine h.claimBeside_root ?_
    simp only [List.mem_append, List.mem_cons] at hk ⊢
    tauto

/-- **Inserting behind a node** puts a node there in its chain, and changes no other. -/
theorem Chained.insertAfter (h : p.Chained ((A ++ i :: B) :: S))
    (hnew : p.firstFree = some new) :
    (p.insertAfter new i).Chained ((A ++ i :: new :: B) :: S) ∧
      SameBeside p (p.insertAfter new i) (A ++ i :: B) (A ++ i :: new :: B) := by
  have hbeside := h.toLayout.sameBeside_insertAfter hnew
  refine ⟨h.edit (h.toLayout.insertAfter hnew) hbeside fun k hk => ?_, hbeside⟩
  rw [insertAfter_root, h.claimBeside_root]
  · -- the head is the same with and without the new node
    cases A <;> rfl
  · simp only [List.mem_append, List.mem_cons] at hk ⊢
    tauto

/-- A node that is put in takes over two bits of its neighbour, and is blank otherwise. -/
theorem Layout.insertBefore_content_self (h : p.Layout ((A ++ i :: B) :: S))
    (hnew : p.firstFree = some new) :
    ((p.insertBefore new i).node new).content = inheritedContent (p.node i) := by
  have hput : ((p.putBefore new i).node new).content = inheritedContent (p.node i) := by
    rw [putBefore_content, claimBeside_content_self]
  rw [insertBefore_eq_putBefore, h.prev_eq]
  -- if there is a new head, the roots change once more, and no content does
  cases A with
  | nil =>
    change (((p.putBefore new i).reroot new).node new).content = _
    rw [Layout.reroot_content (h.putBefore hnew)]
    exact hput
  | cons a A =>
    rw [List.getLast?_cons]
    exact hput

/-- The same holds behind a node. -/
theorem insertAfter_content_self :
    ((p.insertAfter new i).node new).content = inheritedContent (p.node i) := by
  rw [insertAfter_content, claimBeside_content_self]

/-- Inserting a node keeps a pool marked, whether it becomes the head or not. -/
theorem Marked.insertBefore (h : p.Marked) (new i : Fin n) : (p.insertBefore new i).Marked := by
  have hput : ∀ a?, ((((p.claimBeside new i).unlinkFrom a? i).linkFrom a? new).link new i).Marked :=
    fun a? => (((h.claim new _ rfl).unlinkFrom a? i).linkFrom a? new).link new i
  unfold Pool.insertBefore
  cases (p.node i).prev with
  | some a => exact hput (some a)
  | none => exact (hput none).setRoots new

/-- Inserting behind a node keeps a pool marked. -/
theorem Marked.insertAfter (h : p.Marked) (new i : Fin n) : (p.insertAfter new i).Marked :=
  (((h.claim new _ rfl).unlinkTo i _).linkTo new _).link i new

end Insert

end Pool

end Machine6809
