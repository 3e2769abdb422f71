import Machine6809.Proofs.Pool.Splice

/-!
# Defragmentation as a renaming

Closing breaks moves nodes to other places and changes nothing that a chain means. Said once for
all moves together: there is a function `σ` on positions that takes each chain, member by member,
to the chain that the pool holds afterwards, and takes contents along (`Renames σ p q S`). Roots
stay where they are, so the handles do too. Renamings compose, and one move is the renaming that
`Move.apply` says (`Chained.relocate`).

A renaming alone does not tell how many moves have been made. A `Pass` says in addition which
members it may have moved, each at most once, so that the moves can be counted at the end by the
members that lie elsewhere. Two passes over different members make one (`Pass.comp`). The moves
along a chain and the chains of the pool are put together in this way (`Chained.closeBreaks`,
`Chained.closeBreaksAt`), which gives the whole of defragmentation (`Chained.defrag`).
-/

namespace Machine6809

/-- Where a list of moves takes a position. -/
def Move.applyAll {n : ℕ} (moves : List (Move n)) (k : Fin n) : Fin n :=
  moves.foldl Move.apply k

namespace Pool

variable {n : ℕ}

/-- From pool `p` to pool `q` the chains `S` of `p` are renamed by `σ`, with their contents. The
handles stay, there are not more breaks than before, and marks that were up to date still are. -/
structure Renames (σ : Fin n → Fin n) (p q : Pool n) (S : List (List (Fin n))) : Prop where
  chained : q.Chained (S.map (List.map σ))
  content : ∀ k ∈ S.flatten, (q.node (σ k)).content = (p.node k).content
  handle : ∀ L ∈ S, ∀ h, L.head? = some h → σ h = h
  breaks_le : ((S.map (List.map σ)).map breaksIn).sum ≤ (S.map breaksIn).sum
  marked : p.Marked → q.Marked

section Renames

variable {σ τ : Fin n → Fin n} {p q r : Pool n} {S T : List (List (Fin n))}

/-- Lists are not renamed by a function that fixes their members. -/
theorem map_eq_self_of_fixes {L : List (Fin n)} (h : ∀ k ∈ L, σ k = k) : L.map σ = L := by
  rw [List.map_congr_left (g := id) h, List.map_id]

/-- Renaming changes nothing if it fixes each member. -/
theorem map_map_eq_self_of_fixes (h : ∀ k ∈ S.flatten, σ k = k) : S.map (List.map σ) = S := by
  rw [List.map_congr_left (f := List.map σ) (g := id) fun L hL =>
    map_eq_self_of_fixes fun k hk => h k (List.mem_flatten_of_mem hL hk), List.map_id]

theorem Renames.refl (h : p.Chained S) : Renames id p p S := by
  have hmap : S.map (List.map id) = S := map_map_eq_self_of_fixes fun _ _ => rfl
  exact ⟨hmap.symm ▸ h, fun _ _ => rfl, fun _ _ _ _ => rfl, by rw [hmap], id⟩

/-- Renamings in succession are one renaming. -/
theorem Renames.trans (h : Renames σ p q S) (h' : Renames τ q r (S.map (List.map σ))) :
    Renames (τ ∘ σ) p r S := by
  have hmap : (S.map (List.map σ)).map (List.map τ) = S.map (List.map (τ ∘ σ)) := by
    rw [List.map_map]
    exact List.map_congr_left fun L _ => List.map_map
  refine ⟨hmap ▸ h'.chained, fun k hk => ?_, fun L hL k hk => ?_, ?_,
    fun hm => h'.marked (h.marked hm)⟩
  · -- contents go along with both names
    rw [← h.content k hk]
    refine h'.content (σ k) ?_
    rw [← List.map_flatten]
    exact List.mem_map_of_mem hk
  · -- handles are fixed by the first renaming, so they are handles for the second
    have hσ := h.handle L hL k hk
    have hk' : (L.map σ).head? = some k := by
      rw [List.head?_map, hk, Option.map_some, hσ]
    rw [Function.comp_apply, hσ]
    exact h'.handle (L.map σ) (List.mem_map_of_mem hL) k hk'
  · -- breaks can only have become fewer, twice
    rw [← hmap]
    exact h'.breaks_le.trans h.breaks_le

theorem Renames.perm (h : Renames σ p q S) (hST : S.Perm T) : Renames σ p q T where
  chained := h.chained.perm (hST.map _)
  content := fun k hk => h.content k (hST.flatten.mem_iff.mpr hk)
  handle := fun L hL => h.handle L (hST.mem_iff.mpr hL)
  breaks_le := by
    rw [← ((hST.map (List.map σ)).map breaksIn).sum_nat, ← (hST.map breaksIn).sum_nat]
    exact h.breaks_le
  marked := h.marked

end Renames

/-! ### One move -/

section Relocate

variable {p : Pool n} {S : List (List (Fin n))} {A B : List (Fin n)} {i j k place : Fin n}

/-- The node that is moved has been cut out on both sides before. -/
theorem Layout.relocate (h : p.Layout ((A ++ j :: B) :: S))
    (hplace : place ∉ ((A ++ j :: B) :: S).flatten) :
    (p.relocate j place).Layout ((A ++ place :: B) :: S) := by
  -- cut out on both sides, put in the free place, joined on both sides again
  have hcut := h.unlinkFrom.swap.unlinkTo (A := []) (i := j)
  have hfree : place ∉ ([j] :: B :: A :: S).flatten := by
    intro hm
    apply hplace
    simp only [List.flatten_cons, List.mem_append, List.mem_cons, List.not_mem_nil] at hm ⊢
    tauto
  have hperm : ([place] :: B :: A :: S).Perm (A :: [place] :: B :: S) := perm_third _ _ _ _
  unfold Pool.relocate
  rw [h.prev_eq, h.next_eq]
  exact ((hcut.move hfree).perm hperm).linkFrom.linkTo

/-- The core of a move: after cutting out, what node `j` holds goes to `place`. -/
theorem relocate_node_core (q : Pool n) (hint : ℕ) (k : Fin n) :
    ({ (q.setNode place (q.node j)).setNode j Node.free with hint := hint } : Pool n).node k
      = if k = j then Node.free else if k = place then q.node j else q.node k := by
  change ((q.setNode place (q.node j)).setNode j Node.free).node k = _
  rw [node_setNode, node_setNode]

/-- Where the contents are after a relocation: the old place is blank and the new one has taken
over. -/
theorem relocate_content (p : Pool n) (j place k : Fin n) :
    ((p.relocate j place).node k).content = if k = j then (Node.free : Node n).content
      else if k = place then (p.node j).content else (p.node k).content := by
  unfold Pool.relocate
  rw [linkTo_content, linkFrom_content, relocate_node_core]
  split_ifs
  · rfl
  · rw [unlinkTo_content, unlinkFrom_content]
  · rw [unlinkTo_content, unlinkFrom_content]

/-- The root has moved with the node. -/
theorem relocate_root (p : Pool n) (j place k : Fin n) :
    ((p.relocate j place).node k).root = if k = j then none
      else if k = place then (p.node j).root else (p.node k).root := by
  unfold Pool.relocate
  rw [linkTo_root, linkFrom_root, relocate_node_core]
  split_ifs
  · rfl
  · rw [unlinkTo_root, unlinkFrom_root]
  · rw [unlinkTo_root, unlinkFrom_root]

/-- A node that has been cut out carries no mark, so its mark is right at any place. -/
theorem Layout.marked_move (h : p.Layout ([j] :: S)) (hm : p.Marked) (hint : ℕ) :
    Marked { (p.setNode place (p.node j)).setNode j Node.free with hint := hint } := by
  have hj := h.strand [j] List.mem_cons_self
  have hprev : (p.node j).prev = none := hj.first j rfl
  have hnext : (p.node j).next = none := hj.last j rfl
  intro k
  unfold MarkedAt
  rw [relocate_node_core]
  split_ifs with hkj hkp
  · rfl
  · -- the mark that moves along was not set
    have hmj := hm j
    unfold MarkedAt Node.isBroken at hmj
    unfold Node.isBroken
    rw [hprev, hnext] at hmj ⊢
    exact hmj
  · exact hm k

/-- A relocation keeps break marks right, of the neighbours as well. -/
theorem Layout.marked_relocate (h : p.Layout ((A ++ j :: B) :: S)) (hm : p.Marked) :
    (p.relocate j place).Marked := by
  have hcut := h.unlinkFrom.swap.unlinkTo (A := []) (i := j)
  have hcutm := (hm.unlinkFrom A.getLast? j).unlinkTo j B.head?
  unfold Pool.relocate
  rw [h.prev_eq, h.next_eq]
  exact ((hcut.marked_move hcutm _).linkFrom _ _).linkTo _ _

/-- Moving a node behind the one before it closes a break and opens at most one. -/
theorem breaksIn_move_le {A B : List (Fin n)} {i j place : Fin n} (hij : adjacent i j = false)
    (hplace : adjacent i place = true) :
    breaksIn (A ++ i :: place :: B) ≤ breaksIn (A ++ i :: j :: B) := by
  rw [breaksIn_append_cons_cons, breaksIn_append_cons_cons, if_pos hplace, hij,
    if_neg Bool.false_ne_true]
  cases B with
  | nil => rw [breaksIn_singleton, breaksIn_singleton]; omega
  | cons b B =>
    -- the seam behind the node may become a break
    rw [breaksIn_cons_cons, breaksIn_cons_cons]
    split_ifs <;> omega

theorem Move.apply_of_ne {m : Move n} (h : k ≠ m.source) : Move.apply k m = k := if_neg h

theorem Move.apply_source (m : Move n) : Move.apply m.source m = m.target := if_pos rfl

/-- A list without the source of a move is not renamed by it. -/
theorem map_apply_of_not_mem {m : Move n} {L : List (Fin n)} (h : m.source ∉ L) :
    L.map (Move.apply · m) = L :=
  map_eq_self_of_fixes fun _ hk => Move.apply_of_ne fun he => h (he ▸ hk)

/-- After a move the node that moved stands where it stood in its chain, with the same root. -/
theorem Chained.relocate_chained (h : p.Chained ((A ++ i :: j :: B) :: S))
    (hlay : (p.relocate j place).Layout ((A ++ i :: place :: B) :: S))
    (hj : j ∉ ((A ++ i :: place :: B) :: S).flatten) :
    (p.relocate j place).Chained ((A ++ i :: place :: B) :: S) := by
  refine ⟨hlay, fun L hL k hk => ?_⟩
  have hkj : k ≠ j := fun he => hj (he ▸ List.mem_flatten_of_mem hL hk)
  rw [relocate_root, if_neg hkj]
  rcases List.mem_cons.mp hL with rfl | hLS
  · have hhead : (A ++ i :: place :: B).head? = (A ++ i :: j :: B).head? := by
      cases A <;> rfl
    rw [hhead]
    -- the node in the new place has brought its root with it
    split_ifs with hkp
    · exact h.root_eq _ List.mem_cons_self j (by simp)
    · refine h.root_eq _ List.mem_cons_self k ?_
      simp only [List.mem_append, List.mem_cons] at hk ⊢
      tauto
  · -- the free place is in no other chain
    have hkp : k ≠ place := by
      rintro rfl
      exact hlay.not_mem_of_mem (by simp) (List.mem_flatten_of_mem hLS hk)
    rw [if_neg hkp]
    exact h.root_eq L (List.mem_cons_of_mem _ hLS) k hk

/-- **One move is a renaming.** The node behind `i` goes to the free place right behind `i`. -/
theorem Chained.relocate (h : p.Chained ((A ++ i :: j :: B) :: S))
    (hfree : place ∉ ((A ++ i :: j :: B) :: S).flatten) (hij : adjacent i j = false)
    (hplace : adjacent i place = true) :
    Renames (Move.apply · ⟨j, place⟩) p (p.relocate j place) ((A ++ i :: j :: B) :: S) ∧
      ((A ++ i :: j :: B) :: S).map (List.map (Move.apply · ⟨j, place⟩))
        = (A ++ i :: place :: B) :: S := by
  have hassoc : ∀ x, A ++ i :: x :: B = (A ++ [i]) ++ x :: B := fun x => by
    rw [List.append_assoc, List.singleton_append]
  have hl := h.toLayout
  rw [hassoc] at hl
  have hlay : (p.relocate j place).Layout ((A ++ i :: place :: B) :: S) := by
    rw [hassoc] at hfree ⊢
    exact hl.relocate hfree
  -- the node occurs nowhere else
  have hjL : j ∉ A ++ i :: B := by
    have hj := hl.not_mem_both
    rwa [List.append_assoc, List.singleton_append] at hj
  have hjS : j ∉ S.flatten := h.not_mem_of_mem (by simp)
  have hjp : j ≠ place := by
    rintro rfl
    exact hfree (by simp)
  rw [List.mem_append, List.mem_cons, not_or, not_or] at hjL
  obtain ⟨hjA, hji, hjB⟩ := hjL
  -- the renamed layout is the one that the move produces
  have hmapS : S.map (List.map (Move.apply · ⟨j, place⟩)) = S :=
    map_map_eq_self_of_fixes fun k hk =>
      Move.apply_of_ne (m := ⟨j, place⟩) (show k ≠ j from fun he => hjS (he ▸ hk))
  have hmap : ((A ++ i :: j :: B) :: S).map (List.map (Move.apply · ⟨j, place⟩))
      = (A ++ i :: place :: B) :: S := by
    rw [List.map_cons, hmapS, List.map_append, List.map_cons, List.map_cons,
      map_apply_of_not_mem hjA, map_apply_of_not_mem hjB, Move.apply_of_ne (Ne.symm hji),
      Move.apply_source ⟨j, place⟩]
  refine ⟨?_, hmap⟩
  refine
    { chained := ?chained
      content := ?content
      handle := ?handle
      breaks_le := ?breaks
      marked := fun hm => hl.marked_relocate hm }
  case chained =>
    rw [hmap]
    refine h.relocate_chained hlay ?_
    simp only [List.flatten_cons, List.mem_append, List.mem_cons]
    tauto
  case content =>
    intro k hk
    have hkp : k ≠ place := fun he => hfree (he ▸ hk)
    rw [relocate_content]
    by_cases hkj : k = j
    · rw [hkj, Move.apply_source ⟨j, place⟩, if_neg (Ne.symm hjp), if_pos rfl]
    · rw [Move.apply_of_ne (m := ⟨j, place⟩) hkj, if_neg hkj, if_neg hkp]
  case handle =>
    -- the node that moves is not the first of its chain
    intro L hL k hk
    refine Move.apply_of_ne fun he => ?_
    change k = j at he
    rcases List.mem_cons.mp hL with rfl | hLS
    · cases A with
      | nil => exact hji (he.symm.trans (Option.some.inj hk).symm)
      | cons a A => exact hjA (he ▸ (Option.some.inj hk).symm ▸ List.mem_cons_self)
    · exact hjS (List.mem_flatten_of_mem hLS (he ▸ List.mem_of_mem_head? hk))
  case breaks =>
    rw [hmap, List.map_cons, List.map_cons, List.sum_cons, List.sum_cons]
    exact Nat.add_le_add_right (breaksIn_move_le hij hplace) _

end Relocate

/-! ### The moves along one chain -/

/-- Moves in succession are applied in succession. -/
theorem applyAll_append (moves moves' : List (Move n)) :
    Move.applyAll (moves ++ moves') = Move.applyAll moves' ∘ Move.applyAll moves := by
  funext k
  exact List.foldl_append

/-- The number of members of a list that a renaming takes elsewhere. -/
def displaced (σ : Fin n → Fin n) (L : List (Fin n)) : ℕ := L.countP fun k => decide (σ k ≠ k)

section Displaced

variable {σ τ : Fin n → Fin n} {L L' : List (Fin n)}

theorem displaced_append : displaced σ (L ++ L') = displaced σ L + displaced σ L' :=
  List.countP_append

theorem displaced_congr (h : ∀ k ∈ L, σ k = τ k) : displaced σ L = displaced τ L :=
  List.countP_congr fun k hk => by rw [h k hk]

/-- A member that moves counts. -/
theorem displaced_cons_of_moved {k : Fin n} (h : σ k ≠ k) :
    displaced σ (k :: L) = displaced σ L + 1 :=
  List.countP_cons_of_pos (decide_eq_true h)

end Displaced

/-! ### Passes -/

/-- A pass from `p` to `q` has made the moves `new`, the last of them first. It renames the chains,
it moves none but the members in `M`, and it has moved each of them at most once: there are as
many moves as members of `M` that end up elsewhere. -/
structure Pass (p q : Pool n) (S : List (List (Fin n))) (new : List (Move n))
    (M : List (Fin n)) : Prop where
  renames : Renames (Move.applyAll new.reverse) p q S
  subset : ∀ k ∈ M, k ∈ S.flatten
  nodup : M.Nodup
  fixes : ∀ k ∈ S.flatten, k ∉ M → Move.applyAll new.reverse k = k
  length_eq : new.length = displaced (Move.applyAll new.reverse) M

section Pass

variable {p q r : Pool n} {S T : List (List (Fin n))} {M N : List (Fin n)}
  {new₁ new₂ : List (Move n)} {j place : Fin n}

/-- Doing nothing is a pass. -/
theorem Chained.pass_nil (h : p.Chained S) : Pass p p S [] [] where
  renames := Renames.refl h
  subset := fun _ hk => absurd hk List.not_mem_nil
  nodup := List.nodup_nil
  fixes := fun _ _ _ => rfl
  length_eq := rfl

theorem Pass.perm (h : Pass p q S new₁ M) (hST : S.Perm T) : Pass p q T new₁ M where
  renames := h.renames.perm hST
  subset := fun k hk => hST.flatten.mem_iff.mp (h.subset k hk)
  nodup := h.nodup
  fixes := fun k hk => h.fixes k (hST.flatten.mem_iff.mpr hk)
  length_eq := h.length_eq

/-- Members that are not moved may be counted in. -/
theorem Pass.mono (h : Pass p q S new₁ M) (hMN : ∀ k ∈ M, k ∈ N)
    (hN : ∀ k ∈ N, k ∈ S.flatten) (hnd : N.Nodup) : Pass p q S new₁ N where
  renames := h.renames
  subset := hN
  nodup := hnd
  fixes := fun k hk hkN => h.fixes k hk fun hkM => hkN (hMN k hkM)
  length_eq := by
    have hperm : (M.filter fun k => decide (Move.applyAll new₁.reverse k ≠ k)).Perm
        (N.filter fun k => decide (Move.applyAll new₁.reverse k ≠ k)) := by
      refine (List.perm_ext_iff_of_nodup (h.nodup.filter _) (hnd.filter _)).mpr fun k => ?_
      rw [List.mem_filter, List.mem_filter, decide_eq_true_eq]
      refine and_congr_left fun hk => ⟨hMN k, fun hkN => ?_⟩
      -- what ends up elsewhere has been moved
      by_contra hkM
      exact hk (h.fixes k (hN k hkN) hkM)
    rw [h.length_eq]
    unfold displaced
    rw [List.countP_eq_length_filter, List.countP_eq_length_filter]
    exact hperm.length_eq

/-- **Two passes make one**, if the second moves nothing that the first might have moved. -/
theorem Pass.comp (h₁ : Pass p q S new₁ M)
    (h₂ : Pass q r (S.map (List.map (Move.applyAll new₁.reverse))) new₂ N)
    (hN : ∀ k ∈ N, k ∈ S.flatten) (hNM : ∀ k ∈ N, k ∉ M)
    (hMN : ∀ k ∈ M, Move.applyAll new₁.reverse k ∉ N) :
    Pass p r S (new₂ ++ new₁) (M ++ N) := by
  set σ₁ := Move.applyAll new₁.reverse
  set σ₂ := Move.applyAll new₂.reverse
  have hcomp : Move.applyAll (new₂ ++ new₁).reverse = σ₂ ∘ σ₁ := by
    rw [List.reverse_append, applyAll_append]
  have hmem : ∀ k ∈ S.flatten, σ₁ k ∈ (S.map (List.map σ₁)).flatten := by
    intro k hk
    rw [← List.map_flatten]
    exact List.mem_map_of_mem hk
  -- members of the first part stay where the first pass has put them
  have hfirst : ∀ k ∈ M, σ₂ (σ₁ k) = σ₁ k := fun k hk =>
    h₂.fixes (σ₁ k) (hmem k (h₁.subset k hk)) (hMN k hk)
  -- and members of the second part are not moved by the first pass
  have hsecond : ∀ k ∈ N, σ₁ k = k := fun k hk => h₁.fixes k (hN k hk) (hNM k hk)
  refine
    { renames := hcomp ▸ h₁.renames.trans h₂.renames
      subset := fun k hk => (List.mem_append.mp hk).elim (h₁.subset k) (hN k)
      nodup := List.nodup_append.mpr ⟨h₁.nodup, h₂.nodup, ?disjoint⟩
      fixes := ?fixes
      length_eq := ?length }
  case disjoint =>
    -- the two parts have no member in common
    intro k hk l hl he
    exact hNM l hl (he ▸ hk)
  case fixes =>
    intro k hk hkMN
    -- a node outside both parts is fixed by one pass after the other
    rw [List.mem_append, not_or] at hkMN
    have hk₁ : σ₁ k = k := h₁.fixes k hk hkMN.1
    have hk₂ : σ₂ k = k := h₂.fixes k (hk₁ ▸ hmem k hk) hkMN.2
    rw [hcomp, Function.comp_apply, hk₁, hk₂]
  case length =>
    -- each part is displaced by its own pass only, so the moves add up
    have hcountM : displaced (σ₂ ∘ σ₁) M = displaced σ₁ M := displaced_congr hfirst
    have hcountN : displaced (σ₂ ∘ σ₁) N = displaced σ₂ N := displaced_congr fun k hk => by
      rw [Function.comp_apply, hsecond k hk]
    rw [hcomp, displaced_append, hcountM, hcountN, ← h₁.length_eq, ← h₂.length_eq,
      List.length_append, Nat.add_comm]

/-- One move is a pass. -/
theorem Renames.pass {m : Move n} (h : Renames (Move.apply · m) p q S)
    (hsource : m.source ∈ S.flatten) (hne : m.target ≠ m.source) :
    Pass p q S [m] [m.source] where
  renames := h
  subset := fun k hk => (List.mem_singleton.mp hk) ▸ hsource
  nodup := List.nodup_singleton _
  fixes := fun k _ hk => Move.apply_of_ne fun he => hk (he ▸ List.mem_singleton_self _)
  -- one move, and one displaced member
  length_eq := by
    have hmoved : Move.applyAll [m].reverse m.source ≠ m.source := by
      change Move.apply m.source m ≠ m.source
      rwa [Move.apply_source]
    rw [displaced_cons_of_moved hmoved]
    rfl

end Pass

/-- The place that is found beside a node is free and next to it. -/
theorem freePlaceAfter?_spec {p : Pool n} {i place : Fin n}
    (h : p.freePlaceAfter? i = some place) :
    (p.node place).isAllocated = false ∧ adjacent i place = true := by
  unfold freePlaceAfter? at h
  split_ifs at h with hlt ha
  obtain rfl := Option.some.inj h
  exact ⟨by rwa [Bool.not_eq_true] at ha, beq_self_eq_true _⟩

/-- **Closing breaks along a chain** is a pass over the members that come behind the starting
point. -/
theorem Chained.closeBreaks {S : List (List (Fin n))} : ∀ (fuel : ℕ) {p : Pool n}
    {A B : List (Fin n)} {i : Fin n} (moves : List (Move n)), p.Chained ((A ++ i :: B) :: S) →
    ∃ new, (Pool.closeBreaks fuel i p moves).2 = new ++ moves ∧
      Pass p (Pool.closeBreaks fuel i p moves).1 ((A ++ i :: B) :: S) new B := by
  intro fuel
  -- by the fuel, for a walk that may have come to any place in the chain
  induction fuel with
  | zero =>
    intro p A B i moves h
    -- without fuel nothing is moved
    refine ⟨[], rfl, h.pass_nil.mono (fun _ hk => absurd hk List.not_mem_nil) ?_ ?_⟩
    · exact fun k hk => List.mem_append_left _ (by simp [hk])
    · exact (List.nodup_append.mp h.nodup_head).2.1.of_cons
  | succ fuel ih =>
    intro p A B i moves h
    cases B with
    | nil =>
      rw [Pool.closeBreaks, h.next_eq]
      exact ⟨[], rfl, h.pass_nil⟩
    | cons j B =>
      have hassoc : ∀ x, A ++ i :: x :: B = (A ++ [i]) ++ x :: B := fun x => by
        rw [List.append_assoc, List.singleton_append]
      have hj := h
      rw [hassoc] at hj
      have hnd : (j :: B).Nodup := (List.nodup_append.mp hj.nodup_head).2.1
      rw [Pool.closeBreaks, h.next_eq, List.head?_cons]
      dsimp only
      cases hplace : (if adjacent i j then none else p.freePlaceAfter? i) with
      | none =>
        -- the next member stays, and the walk goes on from there
        obtain ⟨new, hnew, hpass⟩ := ih moves hj
        rw [← hassoc] at hpass
        exact ⟨new, hnew, hpass.mono (fun k hk => List.mem_cons_of_mem j hk)
          (fun k hk => List.mem_append_left _ (by simp [List.mem_cons.mp hk])) hnd⟩
      | some place =>
        -- the next member moves, and the walk goes on from its new place
        obtain ⟨hij, hafter⟩ : adjacent i j = false ∧ p.freePlaceAfter? i = some place := by
          split_ifs at hplace with hadj
          exact ⟨by rwa [Bool.not_eq_true] at hadj, hplace⟩
        obtain ⟨hfree, hadj⟩ := freePlaceAfter?_spec hafter
        have hout := h.not_mem_of_free hfree
        obtain ⟨hmove, hmap⟩ := h.relocate hout hij hadj
        have hone : Pass p (p.relocate j place) ((A ++ i :: j :: B) :: S) [⟨j, place⟩] [j] :=
          hmove.pass (by simp) fun he => hout ((show place = j from he) ▸ by simp)
        have hq : (p.relocate j place).Chained (((A ++ [i]) ++ place :: B) :: S) := by
          have hc := hmove.chained
          rwa [hmap, hassoc] at hc
        obtain ⟨new, hnew, hrest⟩ := ih (⟨j, place⟩ :: moves) hq
        refine ⟨new ++ [⟨j, place⟩], by rw [List.append_assoc]; exact hnew, ?_⟩
        rw [← hassoc, ← hmap] at hrest
        refine hone.comp hrest (fun k hk => by simp [hk]) (fun k hk hkj => ?_) fun k hk hkB => ?_
        · exact (List.nodup_cons.mp hnd).1 (List.mem_singleton.mp hkj ▸ hk)
        · -- the place was free, so no member lies there
          obtain rfl := List.mem_singleton.mp hk
          change Move.apply k ⟨k, place⟩ ∈ B at hkB
          rw [Move.apply_source ⟨k, place⟩] at hkB
          exact hout (by simp [hkB])

/-! ### All chains -/

/-- A pass over one chain and then one that leaves this chain alone. What moves in the second
belongs to other chains, which the first has not touched. -/
theorem Pass.comp_chain {p q r : Pool n} {T : List (List (Fin n))} {B N : List (Fin n)}
    {new₁ new₂ : List (Move n)} {h : Fin n} (hc : p.Chained ((h :: B) :: T))
    (h₁ : Pass p q ((h :: B) :: T) new₁ B)
    (h₂ : Pass q r (((h :: B) :: T).map (List.map (Move.applyAll new₁.reverse))) new₂ N)
    (hleft : ∀ k ∈ h :: B, Move.applyAll new₁.reverse k ∉ N) :
    Pass p r ((h :: B) :: T) (new₂ ++ new₁) (B ++ N) ∧ ∀ k ∈ T.flatten, k ∉ B := by
  have hdisj : ∀ k ∈ T.flatten, k ∉ B := fun k hk hkB =>
    hc.not_mem_of_mem (List.mem_cons_of_mem h hkB) hk
  -- what the later pass moves is of the other chains, for the first chain is left alone
  have hNT : ∀ k ∈ N, k ∈ T.flatten := by
    intro k hk
    have hkS := h₂.subset k hk
    rw [← List.map_flatten] at hkS
    obtain ⟨l, hl, rfl⟩ := List.mem_map.mp hkS
    rcases List.mem_append.mp hl with hlB | hlT
    · exact absurd hk (hleft l hlB)
    · rwa [h₁.fixes l hl (hdisj l hlT)]
  refine ⟨h₁.comp h₂ (fun k hk => List.mem_append_right _ (hNT k hk)) (fun k hk => ?_)
    fun k hk => ?_, hdisj⟩
  · exact hdisj k (hNT k hk)
  · exact hleft k (List.mem_cons_of_mem h hk)

/-- **Closing breaks from several starting points** in turn, where a position that is no handle is
passed over, is a pass over the chains that begin at these points. -/
theorem Chained.closeBreaksAt : ∀ (heads : List (Fin n)) {p : Pool n} {S : List (List (Fin n))}
    (moves : List (Move n)), heads.Nodup → p.Chained S →
    ∃ new M, (heads.foldl Pool.closeBreaksAt (p, moves)).2 = new ++ moves ∧
      Pass p (heads.foldl Pool.closeBreaksAt (p, moves)).1 S new M ∧
      ∀ L ∈ S, (∀ h, L.head? = some h → h ∉ heads) → ∀ k ∈ L, k ∉ M := by
  intro heads
  -- by the starting points that are still to come
  induction heads with
  | nil =>
    intro p S moves _ h
    exact ⟨[], [], rfl, h.pass_nil, fun _ _ _ _ _ => List.not_mem_nil⟩
  | cons h heads ih =>
    intro p S moves hnd hc
    obtain ⟨hh, hnd⟩ := List.nodup_cons.mp hnd
    rw [List.foldl_cons]
    cases hhandle : p.isHandle h with
    | false =>
      -- no chain begins here
      have hskip : Pool.closeBreaksAt (p, moves) h = (p, moves) :=
        if_neg (by rw [hhandle]; exact Bool.false_ne_true)
      rw [hskip]
      obtain ⟨new, M, hnew, hpass, hout⟩ := ih moves hnd hc
      exact ⟨new, M, hnew, hpass, fun L hL hd => hout L hL fun k hk hm =>
        hd k hk (List.mem_cons_of_mem h hm)⟩
    | true =>
      obtain ⟨B, T, hST, hcT⟩ := hc.exists_handle hhandle
      obtain ⟨new₁, hnew₁, hfirst⟩ := hcT.closeBreaks (A := []) n moves
      obtain ⟨new₂, N, hnew₂, hrest, hout⟩ :=
        ih (Pool.closeBreaks n h p moves).2 hnd hfirst.renames.chained
      have hstep : Pool.closeBreaksAt (p, moves) h = Pool.closeBreaks n h p moves :=
        if_pos hhandle
      set σ₁ := Move.applyAll new₁.reverse
      -- the first chain is left alone from now on, since its handle does not come up again
      have hleft : ∀ k ∈ h :: B, σ₁ k ∉ N := by
        intro k hk
        refine hout ((h :: B).map σ₁) List.mem_cons_self (fun g hg => ?_) (σ₁ k)
          (List.mem_map_of_mem hk)
        have hfixh : σ₁ h = h := hfirst.renames.handle _ List.mem_cons_self h rfl
        rw [List.map_cons, List.head?_cons, hfixh] at hg
        exact Option.some.inj hg ▸ hh
      obtain ⟨hboth, hdisj⟩ := hfirst.comp_chain hcT hrest hleft
      refine ⟨new₂ ++ new₁, B ++ N, ?_, ?_, fun L hL hd k hk => ?_⟩
      · rw [hstep, List.append_assoc, ← hnew₁]
        exact hnew₂
      · rw [hstep]
        exact hboth.perm hST.symm
      · -- a chain that no starting point belongs to is among the others, and not renamed
        have hLT : L ∈ T := by
          rcases List.mem_cons.mp (hST.mem_iff.mp hL) with rfl | hLT
          · exact absurd List.mem_cons_self (hd h rfl)
          · exact hLT
        have hmapL : L.map σ₁ = L := map_eq_self_of_fixes fun k hk =>
          have hkT := List.mem_flatten_of_mem hLT hk
          hfirst.fixes k (List.mem_append_right _ hkT) (hdisj k hkT)
        have hLmap : L ∈ ((h :: B) :: T).map (List.map σ₁) :=
          hmapL ▸ List.mem_map_of_mem (List.mem_cons_of_mem _ hLT)
        rw [List.mem_append, not_or]
        refine ⟨hdisj k (List.mem_flatten_of_mem hLT hk), hout L hLmap (fun g hg hm => ?_) k hk⟩
        exact hd g hg (List.mem_cons_of_mem h hm)

/-- **Defragmentation is a renaming** that has as many moves as members it takes elsewhere. -/
theorem Chained.defrag {p : Pool n} {S : List (List (Fin n))} (h : p.Chained S) :
    Renames (Move.applyAll p.defrag.2) p p.defrag.1 S ∧
      p.defrag.2.length = displaced (Move.applyAll p.defrag.2) S.flatten := by
  obtain ⟨new, M, hnew, hpass, -⟩ := h.closeBreaksAt (List.finRange n) [] (List.nodup_finRange n)
  rw [List.append_nil] at hnew
  have hmoves : p.defrag.2 = new.reverse := by
    rw [← hnew]
    rfl
  -- count over all members instead of those that may have been moved
  have hall := hpass.mono hpass.subset (fun _ hk => hk) h.nodup
  rw [hmoves, List.length_reverse]
  exact ⟨hall.renames, hall.length_eq⟩

/-- No node is moved twice, so there are not more moves than nodes. -/
theorem Chained.length_defrag_le {p : Pool n} {S : List (List (Fin n))} (h : p.Chained S) :
    p.defrag.2.length ≤ n := by
  have hle : p.defrag.2.length ≤ S.flatten.length := by
    rw [h.defrag.2]
    exact List.countP_le_length
  exact hle.trans h.length_le

/-! ### What a renaming means for the handles -/

/-- The number of members of chains that lie at another position in `q`, chain by chain. -/
def movedMembers (p q : Pool n) : ℕ :=
  (p.handles.map fun h => ((p.chain h).zip (q.chain h)).countP fun x => decide (x.1 ≠ x.2)).sum

section Meaning

variable {σ : Fin n → Fin n} {p q : Pool n} {S : List (List (Fin n))} {h : Fin n}

/-- Handles stay handles, and none are added. -/
theorem Renames.isHandle_iff (hr : Renames σ p q S) (hp : p.Chained S) :
    q.isHandle h = true ↔ p.isHandle h = true := by
  rw [hr.chained.isHandle_iff, hp.isHandle_iff]
  constructor
  · rintro ⟨M, hM, hMh⟩
    obtain ⟨L, hL, rfl⟩ := List.mem_map.mp hM
    rw [List.head?_map] at hMh
    -- the first node of a chain is where it was
    obtain ⟨g, hg, hgh⟩ := Option.map_eq_some_iff.mp hMh
    exact ⟨L, hL, by rw [hg, ← hgh, hr.handle L hL g hg]⟩
  · rintro ⟨L, hL, hLh⟩
    refine ⟨L.map σ, List.mem_map_of_mem hL, ?_⟩
    rw [List.head?_map, hLh, Option.map_some, hr.handle L hL h hLh]

/-- Each handle names the renamed chain. -/
theorem Renames.chain_eq (hr : Renames σ p q S) (hp : p.Chained S) (hh : p.isHandle h = true) :
    q.chain h = (p.chain h).map σ := by
  obtain ⟨L, hL, hLh⟩ := hp.isHandle_iff.mp hh
  have hhead : (L.map σ).head? = some h := by
    rw [List.head?_map, hLh, Option.map_some, hr.handle L hL h hLh]
  rw [hp.chain_eq_of_mem hL hLh, hr.chained.chain_eq_of_mem (List.mem_map_of_mem hL) hhead]

/-- A member carries its content to its new place. -/
theorem Renames.content_eq (hr : Renames σ p q S) (hp : p.Chained S) {k : Fin n}
    (hk : (p.node k).isAllocated = true) : (q.node (σ k)).content = (p.node k).content :=
  hr.content k ((hp.allocated_iff k).mp hk)

/-- The counters of free and allocated nodes stay, and that of breaks does not grow. -/
theorem Renames.counts (hr : Renames σ p q S) (hp : p.Chained S) :
    q.freeCount = p.freeCount ∧ q.allocatedCount = p.allocatedCount ∧
      q.breakCount ≤ p.breakCount := by
  have hlen : (S.map (List.map σ)).flatten.length = S.flatten.length := by
    rw [← List.map_flatten, List.length_map]
  refine ⟨?_, ?_, ?_⟩
  · -- the chains have as many members as before, so free and allocated nodes are as many
    refine hr.chained.free_shows.1.trans ?_
    rw [hlen]
    exact hp.free_shows.1.symm
  · refine hr.chained.allocated_shows.1.trans ?_
    rw [hlen]
    exact hp.allocated_shows.1.symm
  · calc q.breakCount
        = ((S.map (List.map σ)).map breaksIn).sum := hr.chained.breaks_shows.1
      _ ≤ (S.map breaksIn).sum := hr.breaks_le
      _ = p.breakCount := hp.breaks_shows.1.symm

/-- The members that are taken elsewhere are those that lie elsewhere in their chain. -/
theorem Renames.movedMembers_eq (hr : Renames σ p q S) (hp : p.Chained S) :
    movedMembers p q = displaced σ S.flatten := by
  -- chain by chain, comparing the old list with its image counts the members that moved
  have hone : ∀ L : List (Fin n),
      ((L.zip (L.map σ)).countP fun x => decide (x.1 ≠ x.2)) = displaced σ L := by
    intro L
    have hzip : L.zip (L.map σ) = L.map fun k => (k, σ k) := by
      rw [← List.zip_map', List.map_id']
    rw [hzip, List.countP_map]
    refine List.countP_congr fun k _ => ?_
    rw [Function.comp_apply, decide_eq_true_eq, decide_eq_true_eq]
    exact ne_comm
  calc movedMembers p q
      = (p.handles.map fun h => displaced σ (p.chain h)).sum := by
        unfold movedMembers
        congr 1
        refine List.map_congr_left fun h hh => ?_
        rw [hr.chain_eq hp (List.mem_filter.mp hh).2, hone]
    _ = displaced σ (p.handles.flatMap p.chain) := List.countP_flatMap.symm
    -- the chains of the handles are the listed chains in some order
    _ = displaced σ S.flatten := hp.flatMap_chain_perm.countP_eq _

end Meaning

end Pool

end Machine6809
