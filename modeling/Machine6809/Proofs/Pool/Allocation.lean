import Machine6809.Proofs.Pool.Splice
import Mathlib.Data.List.Sort

/-!
# Building and freeing whole chains

A chain that is being built is a chain all the time: each round claims the first free node for the
root and links it to the tail. So `Chained` is the loop invariant of `extend`, with one more node
at the end of the chain after each round, and what is left when the pool runs out is a chain too
(`Pool.Allocates` lists the outcomes). The hint is never past a free node, so a round takes the
head of the list of free positions, and all rounds together take that list from the front as far
as it goes or as far as is asked.

Freeing goes the other way. Each round cuts the first node off and releases it, and what is left
is a strand that begins one node later (`Layout.releaseFrom`). Its roots are stale, but they are
not looked at.
-/

namespace Machine6809

namespace Pool

variable {n : ℕ}

/-- The content of a node that has been claimed and not been written to. -/
def claimedContent (template : NodeStatus) : NodeStatus × Vector Byte payloadSize :=
  ({ template with allocated := true, fragged := false }, Node.blank)

/-! ### The free positions -/

section FreePositions

variable {p q : Pool n} {S : List (List (Fin n))} {i : Fin n}

/-- The positions of the free nodes, in the order of the pool. -/
def freePositions (p : Pool n) : List (Fin n) :=
  (List.finRange n).filter fun i => !(p.node i).isAllocated

/-- The free positions are those of the free nodes. -/
@[simp] theorem mem_freePositions : i ∈ p.freePositions ↔ (p.node i).isAllocated = false := by
  unfold freePositions
  rw [List.mem_filter, Bool.not_eq_true']
  exact and_iff_right (List.mem_finRange i)

/-- They are listed in order. -/
theorem sortedLT_freePositions (p : Pool n) : p.freePositions.SortedLT :=
  ((List.sortedLT_finRange n).pairwise.filter _).sortedLT

/-- They depend on which nodes are allocated and on nothing else. -/
theorem freePositions_congr (h : ∀ k, (q.node k).isAllocated = (p.node k).isAllocated) :
    q.freePositions = p.freePositions := by
  unfold freePositions
  simp only [h]

/-- The search fails exactly if there is no free position. -/
theorem Layout.freePositions_eq_nil_iff (h : p.Layout S) :
    p.freePositions = [] ↔ p.firstFree = none := by
  rw [h.firstFree_eq_none_iff, List.eq_nil_iff_forall_not_mem]
  simp only [mem_freePositions, Bool.not_eq_false]

/-- Claiming the node that the search finds takes the head off the free positions. -/
theorem Layout.freePositions_eq_cons (h : p.Layout S) (hi : p.firstFree = some i) (root : Fin n)
    (template : NodeStatus) : p.freePositions = i :: (p.claim i root template).freePositions := by
  obtain ⟨hfree, hbelow⟩ := h.firstFree_spec hi
  -- claiming takes one node from the free ones, and adds none
  have hmem : ∀ k, k ∈ (p.claim i root template).freePositions ↔ k ≠ i ∧ k ∈ p.freePositions := by
    intro k
    rw [mem_freePositions, mem_freePositions, node_claim]
    split_ifs with hk
    · exact iff_of_false (fun ha => Bool.noConfusion ha) fun hne => hne.1 hk
    · exact (and_iff_right hk).symm
  -- both lists are in ascending order, so it is enough that they have the same members
  refine (sortedLT_freePositions p).eq_of_mem_iff (List.Pairwise.sortedLT ?_) fun k => ?_
  · refine List.pairwise_cons.mpr ⟨fun k hk => ?_, (sortedLT_freePositions _).pairwise⟩
    obtain ⟨hki, hkp⟩ := (hmem k).mp hk
    by_contra hle
    exact h.not_mem_of_free (mem_freePositions.mp hkp)
      (hbelow k (lt_of_le_of_ne (not_lt.mp hle) (Fin.val_ne_of_ne hki)))
  · rw [List.mem_cons, hmem]
    by_cases hk : k = i
    · have hin : i ∈ p.freePositions :=
        mem_freePositions.mpr (isAllocated_of_firstFreeFrom p.hint hi).1
      exact iff_of_true (hk ▸ hin) (Or.inl hk)
    · rw [or_iff_right hk, and_iff_right hk]

/-- The search finds the first of the free positions. -/
theorem Layout.firstFree_eq_head? (h : p.Layout S) : p.firstFree = p.freePositions.head? := by
  cases hf : p.firstFree with
  | none => rw [h.freePositions_eq_nil_iff.mpr hf, List.head?_nil]
  | some i => rw [h.freePositions_eq_cons hf i NodeStatus.none, List.head?_cons]

end FreePositions

/-! ### Building a chain -/

section Extend

variable {S : List (List (Fin n))} {root : Fin n}

/-- One round: the first free node is claimed and linked to the tail. -/
theorem Chained.append_claim (template : NodeStatus) {p : Pool n} {A : List (Fin n)}
    {tail i : Fin n} (h : p.Chained ((A ++ [tail]) :: S)) (hroot : (A ++ [tail]).head? = some root)
    (hi : p.firstFree = some i) :
    ((p.claim i root template).link tail i).Chained ((A ++ [tail, i]) :: S) ∧
      SameBeside p ((p.claim i root template).link tail i) (A ++ [tail]) (A ++ [tail, i]) := by
  obtain ⟨hfree, hbelow⟩ := h.firstFree_spec hi
  have hlay := (h.claim hfree hbelow root template).swap.link
  -- the node that is claimed was free, so it is no member
  have hne : ∀ k ∈ A ++ [tail], k ≠ i :=
    fun k hk he => hfree (List.mem_append_left _ (he ▸ hk))
  have hbeside : SameBeside p ((p.claim i root template).link tail i)
      (A ++ [tail]) (A ++ [tail, i]) := by
    refine ⟨fun k hk _ => ?_, fun k hk hk' => ?_⟩
    · rw [link_content, node_claim, if_neg (hne k hk)]
    · -- what is linked are the tail and the node that has been claimed
      have hkt : k ≠ tail := fun he => hk (he ▸ by simp)
      have hki : k ≠ i := fun he => hk' (he ▸ by simp)
      rw [link_node_of_ne hkt hki, node_claim, if_neg hki]
  refine ⟨h.edit hlay hbeside fun k hk => ?_, hbeside⟩
  have hhead : (A ++ [tail, i]).head? = some root := by
    rw [← hroot]
    cases A <;> rfl
  rw [link_root, node_claim, hhead]
  split_ifs with hki
  · rfl
  · have hk' : k ∈ A ++ [tail] := by
      simp only [List.mem_append, List.mem_cons, List.not_mem_nil, or_false] at hk ⊢
      tauto
    rw [h.root_eq _ List.mem_cons_self k hk', hroot]

/-- From `p` to `q` the chain `A` has been extended by `B`, with `lacking` nodes less than were
asked for. The new nodes are blank; if some are lacking, it is because no node is free any more. -/
structure Extends (p q : Pool n) (S : List (List (Fin n))) (template : NodeStatus)
    (A B : List (Fin n)) (count lacking : ℕ) : Prop where
  chained : q.Chained ((A ++ B) :: S)
  beside : SameBeside p q A (A ++ B)
  length_eq : B.length + lacking = count
  content : ∀ k ∈ B, (q.node k).content = claimedContent template
  exhausted : lacking ≠ 0 → q.firstFree = none

/-- Nothing has to be done, or nothing can be done. -/
theorem Chained.extends_nil {p : Pool n} {A : List (Fin n)} (template : NodeStatus)
    (h : p.Chained (A :: S)) {count : ℕ} (hc : count ≠ 0 → p.firstFree = none) :
    Extends p p S template A [] count count where
  chained := by rwa [List.append_nil]
  beside := ⟨fun _ _ _ => rfl, fun _ _ _ => rfl⟩
  length_eq := Nat.zero_add count
  content := fun _ hk => absurd hk List.not_mem_nil
  exhausted := hc

/-- **Extending a chain** appends the first free nodes to it, as many as were asked for or are
free. -/
theorem Chained.extend (template : NodeStatus) : ∀ (count : ℕ) {p : Pool n}
    {A : List (Fin n)} {tail : Fin n},
    p.Chained ((A ++ [tail]) :: S) → (A ++ [tail]).head? = some root →
    Extends p (Pool.extend root template count tail p).2 S template (A ++ [tail])
      (p.freePositions.take count) count (Pool.extend root template count tail p).1 := by
  intro count
  -- by the number of nodes that are lacking, for any chain built so far
  induction count with
  | zero =>
    intro p A tail h _
    exact h.extends_nil template fun hne => absurd rfl hne
  | succ count ih =>
    intro p A tail h hroot
    cases hf : p.firstFree with
    -- no node is free, so the chain ends here
    | none =>
      rw [Pool.extend, hf, h.freePositions_eq_nil_iff.mpr hf]
      exact h.extends_nil template fun _ => hf
    | some i =>
      -- one round, and then the others from the new tail
      obtain ⟨hstep, hbeside⟩ := h.append_claim template hroot hf
      have hround : A ++ [tail, i] = (A ++ [tail]) ++ [i] := by
        rw [List.append_assoc, List.singleton_append]
      rw [hround] at hstep hbeside
      have hroot' : ((A ++ [tail]) ++ [i]).head? = some root := by
        rw [← hroot]
        cases A <;> rfl
      have hB := ih hstep hroot'
      have hfree : p.freePositions
          = i :: ((p.claim i root template).link tail i).freePositions := by
        rw [h.freePositions_eq_cons hf root template]
        refine congrArg (i :: ·) (freePositions_congr fun k => ?_).symm
        exact Node.isAllocated_congr (link_content _ _ _ _)
      rw [Pool.extend, hf, hfree, List.take_succ_cons]
      generalize (((p.claim i root template).link tail i).freePositions.take count) = B at hB ⊢
      have happ : (A ++ [tail]) ++ i :: B = ((A ++ [tail]) ++ [i]) ++ B := by
        rw [List.append_assoc _ [i], List.singleton_append]
      refine
        { chained := happ ▸ hB.chained
          beside := ⟨fun k hk hk' => ?_, fun k hk hk' => ?_⟩
          length_eq := ?length
          content := ?content
          exhausted := hB.exhausted }
      · -- what stays in this round stays in the others
        have hki : k ∈ (A ++ [tail]) ++ [i] := List.mem_append_left _ hk
        change ((Pool.extend root template count i _).2.node k).content = _
        rw [hB.beside.content k hki (happ ▸ hk'), hbeside.content k hk hki]
      · have hki : k ∉ (A ++ [tail]) ++ [i] := by
          simp only [List.mem_append, List.mem_cons, not_or] at hk' ⊢
          exact ⟨hk'.1, hk'.2.1, List.not_mem_nil⟩
        change (Pool.extend root template count i _).2.node k = _
        rw [hB.beside.others k hki (happ ▸ hk'), hbeside.others k hk hki]
      case length =>
        have hlen := hB.length_eq
        rw [List.length_cons]
        change B.length + 1 + (Pool.extend root template count i _).1 = count + 1
        omega
      case content =>
        intro k hk
        rcases List.mem_cons.mp hk with rfl | hkB
        · rw [hB.beside.content k (by simp) (by simp), link_content, node_claim, if_pos rfl]
          rfl
        · exact hB.content k hkB

end Extend

/-- Nodes that carry the right mark keep it while a chain is built from a plain template, and so
do those that it takes. -/
theorem MarkedAt.extend {root k : Fin n} {template : NodeStatus} (ht : template.fragged = false) :
    ∀ (count : ℕ) {p : Pool n} {tail : Fin n}, p.MarkedAt k →
      (Pool.extend root template count tail p).2.MarkedAt k := by
  intro count
  -- over the nodes still to be appended: a claim and a link each keep the mark right
  induction count with
  | zero => exact fun h => h
  | succ count ih =>
    intro p tail h
    rw [Pool.extend]
    cases p.firstFree with
    | none => exact h
    | some i => exact ih ((h.claim i root ht).link tail i)

/-- From `p` to `q` a chain has been added, and only its nodes have changed. -/
structure Gains (p q : Pool n) (S : List (List (Fin n))) (root : Fin n) (B : List (Fin n)) :
    Prop where
  chained : q.Chained ((root :: B) :: S)
  others : ∀ k, k ∉ root :: B → q.node k = p.node k

/-- The outcomes of an allocation of `count` nodes from `p`, and the pools that go with them. -/
inductive Allocates (p : Pool n) (S : List (List (Fin n))) (count : ℕ) :
    Allocation n × Pool n → Prop where
  | badLength : Allocates p S count (.badLength, p)
  | noneFree (hfree : p.firstFree = none) : Allocates p S count (.noneFree, p)
  | built {q : Pool n} {root : Fin n} {B : List (Fin n)} (gains : Gains p q S root B)
      (length_eq : B.length + 1 = count) : Allocates p S count (.built root, q)
  /-- The chain is shorter than was asked, and no node is free any more. -/
  | exhausted {q : Pool n} {root : Fin n} {B : List (Fin n)} (gains : Gains p q S root B)
      (length_lt : B.length + 1 < count) (hfree : q.firstFree = none) :
      Allocates p S count (.exhausted root (B.length + 1), q)

section Build

variable {p : Pool n} {S : List (List (Fin n))} {root : Fin n}

/-- The root of a new chain alone is a chain already. -/
theorem Chained.claim_root (h : p.Chained S) (hf : p.firstFree = some root)
    (template : NodeStatus) : (p.claim root root template).Chained ([root] :: S) := by
  obtain ⟨hfree, hbelow⟩ := h.firstFree_spec hf
  have hlay := h.claim hfree hbelow root template
  refine (chained_nil_cons.mpr h).edit hlay ⟨fun _ hk => absurd hk List.not_mem_nil, ?_⟩ ?_
  · -- nodes other than the new root are as they were
    intro k _ hk
    have hkr : k ≠ root := fun he => hk (he ▸ List.mem_cons_self)
    rw [node_claim, if_neg hkr]
  · intro k hk
    -- the new root is its own root
    obtain rfl := List.mem_singleton.mp hk
    rw [node_claim, if_pos rfl]
    rfl

/-- Claiming a root and extending it by `count` nodes more. -/
theorem Chained.build (h : p.Chained S) (hf : p.firstFree = some root) (template : NodeStatus)
    (count : ℕ) :
    ∃ B, Gains p (Pool.extend root template count root (p.claim root root template)).2 S root B ∧
      root :: B = p.freePositions.take (count + 1) ∧
      Extends (p.claim root root template)
        (Pool.extend root template count root (p.claim root root template)).2 S template [root] B
        count (Pool.extend root template count root (p.claim root root template)).1 := by
  have hB := (h.claim_root hf template).extend (A := []) template count rfl
  rw [h.freePositions_eq_cons hf root template, List.take_succ_cons]
  refine ⟨_, ⟨hB.chained, fun k hk => ?_⟩, rfl, hB⟩
  have hkr : k ≠ root := fun he => hk (he ▸ List.mem_cons_self)
  rw [hB.beside.others k (fun hm => hkr (List.mem_singleton.mp hm)) hk, node_claim, if_neg hkr]

/-- **Allocating** adds a chain to those of the pool, or does nothing. -/
theorem Chained.allocate (h : p.Chained S) (count : ℕ) (template : NodeStatus) :
    Allocates p S count (p.allocate count template) := by
  unfold Pool.allocate
  split_ifs with hc
  · exact .badLength
  · cases hf : p.firstFree with
    -- no free node for the root
    | none => exact .noneFree hf
    | some root =>
      obtain ⟨B, hgains, -, hB⟩ := h.build hf template (count - 1)
      dsimp only
      generalize Pool.extend root template (count - 1) root (p.claim root root template) = x
        at hgains hB ⊢
      obtain ⟨lacking, q⟩ := x
      dsimp only at hgains hB ⊢
      have hlen : B.length + lacking = count - 1 := hB.length_eq
      have hpos : count ≠ 0 := fun h0 => hc (by simp [h0])
      -- a root there is; the rest of the chain has been appended in full or in part
      split_ifs with hl
      · exact .built hgains (by omega)
      · have hcount : count - lacking = B.length + 1 := by omega
        rw [hcount]
        exact .exhausted hgains (by omega) (hB.exhausted hl)

end Build

/-- Allocation with a template that sets no mark keeps the mark of each node right. -/
theorem MarkedAt.allocate {p : Pool n} {k : Fin n} (h : p.MarkedAt k) (count : ℕ)
    {template : NodeStatus} (ht : template.fragged = false) :
    (p.allocate count template).2.MarkedAt k := by
  unfold Pool.allocate
  split_ifs with hc
  · exact h
  · cases p.firstFree with
    | none => exact h
    | some root => exact MarkedAt.extend ht (count - 1) (h.claim root root ht)

/-- So it keeps a pool marked. -/
theorem Marked.allocate {p : Pool n} (h : p.Marked) (count : ℕ) {template : NodeStatus}
    (ht : template.fragged = false) : (p.allocate count template).2.Marked :=
  fun k => (h k).allocate count ht

/-! ### Freeing a chain -/

/-- **Freeing the nodes of a strand** drops it from the layout. The nodes are as they were before
they were ever used, and no other has changed. -/
theorem Layout.releaseFrom : ∀ {B : List (Fin n)} {fuel : ℕ} {i : Fin n} {p : Pool n}
    {S : List (List (Fin n))}, p.Layout ((i :: B) :: S) → B.length < fuel →
    (Pool.releaseFrom fuel i p).1 = B.length + 1 ∧ (Pool.releaseFrom fuel i p).2.Layout S ∧
      ∀ k, (Pool.releaseFrom fuel i p).2.node k
        = if k ∈ i :: B then Node.free else p.node k := by
  intro B
  -- node by node; each round cuts the first one off and releases it
  induction B with
  | nil =>
    intro fuel i p S h hf
    cases fuel with
    | zero => exact absurd hf (Nat.not_lt_zero _)
    | succ fuel =>
      rw [Pool.releaseFrom, h.next_eq (A := [])]
      refine ⟨rfl, h.release, fun k => ?_⟩
      change (p.release i).node k = _
      rw [node_release]
      simp only [List.mem_singleton]
  | cons b B ih =>
    intro fuel i p S h hf
    cases fuel with
    | zero => exact absurd hf (Nat.not_lt_zero _)
    | succ fuel =>
      -- cutting and releasing the first node leaves the strand of the others
      have hrest := (h.unlink (A := [])).release
      obtain ⟨hcount, hlay, hnode⟩ := ih hrest (Nat.lt_of_succ_lt_succ hf)
      rw [Pool.releaseFrom, h.next_eq (A := [])]
      refine ⟨?_, hlay, fun k => ?_⟩
      · change (Pool.releaseFrom fuel b ((p.unlink i b).release i)).1 + 1 = _
        rw [hcount, List.length_cons]
      · change (Pool.releaseFrom fuel b ((p.unlink i b).release i)).2.node k = _
        rw [hnode, node_release]
        simp only [List.mem_cons]
        by_cases hki : k = i
        · rw [if_pos hki, if_pos (Or.inl hki), ite_self]
        · rw [if_neg hki]
          by_cases hkB : k = b ∨ k ∈ B
          · rw [if_pos hkB, if_pos (Or.inr hkB)]
          · rw [if_neg hkB, if_neg (fun hm => hm.elim hki hkB)]
            exact unlink_node_of_ne hki (fun he => hkB (Or.inl he))

/-- **Freeing a chain** counts its nodes and drops it from the pool. -/
theorem Chained.releaseChain {p : Pool n} {B : List (Fin n)} {S : List (List (Fin n))} {i : Fin n}
    (h : p.Chained ((i :: B) :: S)) :
    (p.releaseChain i).1 = B.length + 1 ∧ (p.releaseChain i).2.Chained S ∧
      ∀ k, (p.releaseChain i).2.node k = if k ∈ i :: B then Node.free else p.node k := by
  have hlen := h.length_le
  rw [List.flatten_cons, List.length_append, List.length_cons] at hlen
  -- a chain has no more members than there are nodes, so the fuel is enough
  have hfuel : B.length < n := by omega
  obtain ⟨hcount, hlay, hnode⟩ := h.releaseFrom hfuel
  refine ⟨hcount, ⟨hlay, fun L hL k hk => ?_⟩, hnode⟩
  -- the stale roots were those of the nodes that are free now
  have hkB : k ∉ i :: B := fun hm => h.not_mem_of_mem hm (List.mem_flatten_of_mem hL hk)
  change ((Pool.releaseFrom n i p).2.node k).root = _
  rw [hnode, if_neg hkB]
  exact h.root_eq L (List.mem_cons_of_mem _ hL) k hk

/-- The chains that are left after one has been freed are the others. -/
theorem Chained.chain_releaseChain {p : Pool n} {B : List (Fin n)} {S : List (List (Fin n))}
    {i g : Fin n} (h : p.Chained ((i :: B) :: S)) (hg : p.isHandle g = true) (hgi : g ≠ i) :
    (p.releaseChain i).2.isHandle g = true ∧ (p.releaseChain i).2.chain g = p.chain g := by
  refine h.chain_kept h.releaseChain.2.1 hg fun L hL hLg => ?_
  rcases List.mem_cons.mp hL with rfl | hLS
  · exact absurd (Option.some.inj hLg).symm hgi
  · exact hLS

/-- Freeing a chain takes its handle away and no other. -/
theorem Chained.isHandle_releaseChain_iff {p : Pool n} {B : List (Fin n)}
    {S : List (List (Fin n))} {i g : Fin n} (h : p.Chained ((i :: B) :: S)) :
    (p.releaseChain i).2.isHandle g = true ↔ g ≠ i ∧ p.isHandle g = true := by
  constructor
  · intro hg
    obtain ⟨L, hL, hLg⟩ := h.releaseChain.2.1.isHandle_iff.mp hg
    refine ⟨?_, h.isHandle_iff.mpr ⟨L, List.mem_cons_of_mem _ hL, hLg⟩⟩
    -- the root of one chain is no member of another
    rintro rfl
    exact h.not_mem_of_mem List.mem_cons_self
      (List.mem_flatten_of_mem hL (List.mem_of_mem_head? hLg))
  · rintro ⟨hgi, hg⟩
    exact (h.chain_releaseChain hg hgi).1

/-- Cutting off and releasing one member after the other keeps a pool marked. -/
theorem Marked.releaseFrom : ∀ (fuel : ℕ) (i : Fin n) {p : Pool n}, p.Marked →
    (Pool.releaseFrom fuel i p).2.Marked := by
  intro fuel
  -- along the chain that is freed
  induction fuel with
  | zero => exact fun _ _ h => h
  | succ fuel ih =>
    intro i p h
    rw [Pool.releaseFrom]
    cases (p.node i).next with
    | none => exact h.release i
    | some b => exact ih b ((h.unlink i b).release i)

end Pool

end Machine6809
