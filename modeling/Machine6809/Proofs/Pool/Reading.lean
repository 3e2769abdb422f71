import Machine6809.Proofs.Pool.Chains
import Mathlib.Data.Finset.Card

/-!
# What the invariant says about nodes

The invariant `Pool.Chained` speaks of lists. Here it is put in terms of the nodes and their
links, as someone would check it who goes through the pool: `Pool.WellLinked` for the links of all
nodes, `Pool.FullChain` for the walk from a handle, and `Pool.Counted` for the counters. None of
the three mentions the lists, and each is derived once from `Chained` (the counters from `Layout`
already).

The counters are compared with the numbers of nodes by way of `length_eq_card`: a list without
repetitions is as long as there are positions in it.
-/

namespace Machine6809

namespace Pool

variable {n : ℕ}

/-! ### Links -/

/-- The links of all nodes fit together.
* A free node has no status and no links.
* An allocated node has a root, which is a handle, and it has no previous node exactly if it is
  the root itself.
* Links go both ways, and they join allocated nodes of the same root. -/
structure WellLinked (p : Pool n) : Prop where
  unused : ∀ i, (p.node i).isAllocated = false → (p.node i).IsUnused
  root : ∀ i, (p.node i).isAllocated = true →
    ∃ r, (p.node i).root = some r ∧ p.isHandle r = true ∧ ((p.node i).prev = none ↔ i = r)
  next_iff_prev : ∀ i j, (p.node i).next = some j ↔ (p.node j).prev = some i
  joins : ∀ i j, (p.node i).next = some j → (p.node i).isAllocated = true ∧
    (p.node j).isAllocated = true ∧ (p.node i).root = (p.node j).root

/-- The list is what a walk along the links from `h` meets: it starts there, follows the links, and
stops where they end. It meets exactly the nodes with root `h`, each once. -/
structure FullChain (p : Pool n) (h : Fin n) (L : List (Fin n)) : Prop where
  head_eq : L.head? = some h
  linked : L.IsChain fun i j => (p.node i).next = some j
  ends : ∀ l, L.getLast? = some l → (p.node l).next = none
  nodup : L.Nodup
  mem_iff : ∀ i, i ∈ L ↔ (p.node i).root = some h

section Links

variable {p : Pool n} {S : List (List (Fin n))} {A B L : List (Fin n)} {h i j : Fin n}

/-- A node that has a link or a root is allocated. -/
theorem Layout.isAllocated_of_not_isUnused (hl : p.Layout S) (hi : ¬(p.node i).IsUnused) :
    (p.node i).isAllocated = true := by
  by_contra ha
  exact hi (hl.unused i (hl.not_mem_of_free (by rwa [Bool.not_eq_true] at ha)))

/-- Links to the next node are answered by links back. -/
theorem Layout.prev_of_next (hl : p.Layout S) (hij : (p.node i).next = some j) :
    (p.node j).prev = some i := by
  have ha : (p.node i).isAllocated = true :=
    hl.isAllocated_of_not_isUnused fun hu => absurd (hu.next.symm.trans hij) (by simp)
  obtain ⟨A, B, T, -, hT⟩ := hl.exists_focus ha
  obtain ⟨B, rfl⟩ : ∃ C, B = j :: C := List.head?_eq_some_iff.mp (hT.next_eq.symm.trans hij)
  have hj : p.Layout (((A ++ [i]) ++ j :: B) :: T) := by
    rwa [List.append_assoc, List.singleton_append]
  rw [hj.prev_eq, List.getLast?_append]
  rfl

/-- And links back by links to the next node. -/
theorem Layout.next_of_prev (hl : p.Layout S) (hij : (p.node j).prev = some i) :
    (p.node i).next = some j := by
  have ha : (p.node j).isAllocated = true :=
    hl.isAllocated_of_not_isUnused fun hu => absurd (hu.prev.symm.trans hij) (by simp)
  obtain ⟨A, B, T, -, hT⟩ := hl.exists_focus ha
  obtain ⟨A, rfl⟩ : ∃ C, A = C ++ [i] := List.getLast?_eq_some_iff.mp (hT.prev_eq.symm.trans hij)
  rw [List.append_assoc, List.singleton_append] at hT
  exact hT.next_eq

/-- The links of a pool made of chains fit together. -/
theorem Chained.wellLinked (hc : p.Chained S) : p.WellLinked where
  unused := fun i hi => hc.unused i (hc.not_mem_of_free hi)
  root := fun i hi => by
    obtain ⟨A, B, T, -, hT⟩ := hc.exists_focus hi
    -- the root is the first of the chain
    obtain ⟨r, hr⟩ : ∃ r, (A ++ i :: B).head? = some r := by
      cases A with
      | nil => exact ⟨i, rfl⟩
      | cons a A => exact ⟨a, rfl⟩
    have hroot : (p.node i).root = some r :=
      (hT.root_eq _ List.mem_cons_self i (by simp)).trans hr
    refine ⟨r, hroot, hT.isHandle_iff.mpr ⟨_, List.mem_cons_self, hr⟩, ?_⟩
    rw [hT.prev_eq]
    cases A with
    | nil =>
      -- the node is the first of its chain, and so its root
      exact ⟨fun _ => Option.some.inj hr, fun _ => rfl⟩
    | cons a A =>
      -- a member behind the first is another node than the first
      have hne : i ≠ a := fun he => hT.not_mem_both (he ▸ List.mem_cons_self)
      refine ⟨fun hlast => absurd (List.getLast?_eq_none_iff.mp hlast) (List.cons_ne_nil _ _),
        fun he => ?_⟩
      exact absurd (he.trans (Option.some.inj hr).symm) hne
  next_iff_prev := fun i j => ⟨hc.prev_of_next, hc.next_of_prev⟩
  joins := fun i j hij => by
    -- a free node has no link
    have ha : (p.node i).isAllocated = true :=
      hc.isAllocated_of_not_isUnused fun hu => absurd (hu.next.symm.trans hij) (by simp)
    obtain ⟨A, B, T, -, hT⟩ := hc.exists_focus ha
    obtain ⟨B, rfl⟩ : ∃ C, B = j :: C := List.head?_eq_some_iff.mp (hT.next_eq.symm.trans hij)
    have hj : j ∈ A ++ i :: j :: B := by simp
    refine ⟨ha, hT.isAllocated hj, ?_⟩
    rw [hT.root_eq _ List.mem_cons_self i (by simp), hT.root_eq _ List.mem_cons_self j hj]

/-- The chain of a handle is what a walk from it meets. -/
theorem Chained.fullChain (hc : p.Chained S) (hh : p.isHandle h = true) :
    p.FullChain h (p.chain h) := by
  obtain ⟨B, T, -, hT⟩ := hc.exists_handle hh
  have hstrand := hT.strand _ List.mem_cons_self
  rw [hT.toLayout.chain_eq (A := [])]
  refine ⟨rfl, hstrand.joined.imp fun _ _ hij => hij.1, hstrand.last, hT.nodup_head, fun i => ?_⟩
  refine ⟨fun hi => hT.root_eq _ List.mem_cons_self i hi, fun hi => ?_⟩
  · have ha : (p.node i).isAllocated = true :=
      hT.isAllocated_of_not_isUnused fun hu => absurd (hu.root.symm.trans hi) (by simp)
    obtain ⟨L, hL, hiL⟩ := List.mem_flatten.mp ((hT.allocated_iff i).mp ha)
    have hhL : h ∈ L := List.mem_of_mem_head? ((hT.root_eq L hL i hiL).symm.trans hi)
    rcases List.mem_cons.mp hL with rfl | hLT
    · exact hiL
    · -- the handle is a member of its own chain only
      exact absurd (List.mem_flatten_of_mem hLT hhL) (hT.not_mem_of_mem List.mem_cons_self)

end Links

/-! ### Counts -/

/-- The node is linked to a next one that does not lie right behind it. -/
def BreaksAfter (p : Pool n) (i : Fin n) : Prop :=
  ∃ j, (p.node i).next = some j ∧ j.val ≠ i.val + 1

/-- The node is linked to a previous one that does not lie right before it. -/
def BreaksBefore (p : Pool n) (i : Fin n) : Prop :=
  ∃ j, (p.node i).prev = some j ∧ i.val ≠ j.val + 1

instance (p : Pool n) : DecidablePred p.BreaksAfter := fun i =>
  inferInstanceAs (Decidable (∃ j, (p.node i).next = some j ∧ j.val ≠ i.val + 1))

/-- The counters give the numbers of allocated nodes, of free nodes and of breaks. They have never
gone past an end of their range on the way. -/
structure Counted (p : Pool n) : Prop where
  allocated : p.allocatedCount = (Finset.univ.filter fun i => (p.node i).isAllocated = true).card
  free : p.freeCount = (Finset.univ.filter fun i => (p.node i).isAllocated = false).card
  total : p.freeCount + p.allocatedCount = n
  breaks : p.breakCount = (Finset.univ.filter p.BreaksAfter).card
  overran : p.free.overran = false ∧ p.allocated.overran = false ∧ p.breaks.overran = false

section Counts

variable {p : Pool n} {S : List (List (Fin n))} {A B L : List (Fin n)} {i j : Fin n}

/-- A list without repetitions is as long as there are positions in it. -/
theorem length_eq_card (hL : L.Nodup) {P : Fin n → Prop} [DecidablePred P]
    (h : ∀ i, i ∈ L ↔ P i) : L.length = (Finset.univ.filter P).card := by
  rw [← List.toFinset_card_of_nodup hL]
  congr 1
  ext i
  rw [List.mem_toFinset, Finset.mem_filter_univ, h]

/-- A node is apart from another unless it is one slot below. -/
theorem not_adjacent_iff : (!adjacent i j) = true ↔ j.val ≠ i.val + 1 := by
  unfold adjacent
  rw [Bool.not_eq_true', beq_eq_false_iff_ne]
  exact ne_comm

/-- A break after a node, as the marks have it. -/
theorem breaksAfter_iff :
    p.BreaksAfter i ↔ (p.node i).next.any (fun j => !adjacent i j) = true := by
  rw [Option.any_eq_true]
  exact exists_congr fun j => and_congr_right fun _ => not_adjacent_iff.symm

/-- And one in front of it. -/
theorem breaksBefore_iff :
    p.BreaksBefore i ↔ (p.node i).prev.any (fun j => !adjacent j i) = true := by
  rw [Option.any_eq_true]
  exact exists_congr fun j => and_congr_right fun _ => not_adjacent_iff.symm

/-- The breaks in the rest of a strand are those of the members with a break behind them. -/
theorem Strand.breaksIn_eq : ∀ {B A : List (Fin n)}, p.Strand (A ++ B) →
    breaksIn B = B.countP fun i => decide (p.BreaksAfter i) := by
  intro B
  induction B with
  | nil => exact fun _ => rfl
  | cons b B ih =>
    intro A hS
    have hnext := hS.next_eq
    have hrest : breaksIn B = B.countP fun i => decide (p.BreaksAfter i) :=
      ih (A := A ++ [b]) (by rwa [List.append_assoc])
    have hb : p.BreaksAfter b ↔ B.head?.any (fun j => !adjacent b j) = true := by
      rw [breaksAfter_iff, hnext]
    cases B with
    | nil => rw [breaksIn_singleton, List.countP_singleton, if_neg]; simp [hb]
    | cons c B =>
      -- whether there is a break behind `b` is up to the seam between `b` and `c`
      rw [breaksIn_cons_cons, List.countP_cons, ← hrest, Nat.add_comm]
      congr 1
      cases hadj : adjacent b c <;> simp [hb, hadj]

/-- The counters of a layout are those of the nodes. -/
theorem Layout.counted (hl : p.Layout S) : p.Counted := by
  -- the members are the allocated nodes, and the others are free
  have halloc : S.flatten.length
      = (Finset.univ.filter fun i => (p.node i).isAllocated = true).card :=
    length_eq_card hl.nodup fun i => (hl.allocated_iff i).symm
  have hfree : n - S.flatten.length
      = (Finset.univ.filter fun i => (p.node i).isAllocated = false).card := by
    have hsplit := Finset.card_filter_add_card_filter_not (s := (Finset.univ : Finset (Fin n)))
      fun i => (p.node i).isAllocated = true
    simp only [Bool.not_eq_true, Finset.card_univ, Fintype.card_fin] at hsplit
    omega
  -- a node with a break behind it has a link, so it is a member
  have hmember : ∀ i, p.BreaksAfter i → i ∈ S.flatten := by
    rintro i ⟨j, hj, -⟩
    exact (hl.allocated_iff i).mp
      (hl.isAllocated_of_not_isUnused fun hu => absurd (hu.next.symm.trans hj) (by simp))
  have hbreaks : (S.map breaksIn).sum = (Finset.univ.filter p.BreaksAfter).card :=
    calc (S.map breaksIn).sum
        = (S.map fun L => L.countP fun i => decide (p.BreaksAfter i)).sum := by
          congr 1
          exact List.map_congr_left fun L hL => (hl.strand L hL).breaksIn_eq (A := [])
      _ = (S.flatten.filter fun i => decide (p.BreaksAfter i)).length := by
          rw [← List.countP_flatten, List.countP_eq_length_filter]
      _ = (Finset.univ.filter p.BreaksAfter).card := by
          refine length_eq_card (hl.nodup.filter _) fun i => ?_
          rw [List.mem_filter, decide_eq_true_eq]
          exact and_iff_right_of_imp (hmember i)
  refine ⟨hl.allocated_shows.1.trans halloc, hl.free_shows.1.trans hfree, ?_,
    hl.breaks_shows.1.trans hbreaks, hl.free_shows.2, hl.allocated_shows.2, hl.breaks_shows.2⟩
  have hle := hl.length_le
  have h₁ : p.freeCount = n - S.flatten.length := hl.free_shows.1
  have h₂ : p.allocatedCount = S.flatten.length := hl.allocated_shows.1
  omega

/-- A mark that is up to date says that the node is allocated and has a break beside it. -/
theorem MarkedAt.iff (h : p.MarkedAt i) : (p.node i).status.fragged = true ↔
    (p.node i).isAllocated = true ∧ (p.BreaksBefore i ∨ p.BreaksAfter i) := by
  rw [h, Bool.and_eq_true, Node.isBroken, Bool.or_eq_true, breaksBefore_iff, breaksAfter_iff]

end Counts

end Pool

end Machine6809
