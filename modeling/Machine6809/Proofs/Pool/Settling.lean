import Machine6809.Proofs.Pool.Relocation
import Mathlib.Tactic.Linarith

/-!
# Closing breaks comes to an end

One move closes a break and may open another right behind it, so the number of breaks need not go
down; and the slot that becomes free may let another chain move, so no chain settles by itself. What
goes down is the *burden* of the pool: every break counts with the number of nodes that come behind
it in its chain. A move takes a break further down its chain, where fewer nodes are behind it, or
out of the chain altogether (`burden_move_lt`). So each pass of defragmentation lowers the sum over
all chains by the number of its moves at least (`Chained.defrag_burden`).

A pass without a move has found that no break can be closed: at every break of every chain the slot
that the next node should go to is taken or lies outside the pool (`Settled`). It leaves the pool as
it is (`Chained.settled_of_defrag`).
-/

namespace Machine6809

/-! ### The burden of a list of positions -/

/-- Each break of a list counts with the number of members behind it. -/
def burden {n : ℕ} : List (Fin n) → ℕ
  | i :: j :: rest => (if adjacent i j then 0 else (j :: rest).length) + burden (j :: rest)
  | _ => 0

section Burden

variable {n : ℕ} {A B : List (Fin n)} {i j place : Fin n}

theorem burden_cons_cons (i j : Fin n) (L : List (Fin n)) :
    burden (i :: j :: L) = (if adjacent i j then 0 else (j :: L).length) + burden (j :: L) := rfl

/-- Behind a member that is exchanged for another one there may be a break more. -/
theorem burden_cons_le (i j : Fin n) (B : List (Fin n)) :
    burden (i :: B) ≤ B.length + burden (j :: B) := by
  cases B with
  | nil => exact Nat.zero_le _
  | cons b B =>
    rw [burden_cons_cons, burden_cons_cons]
    split_ifs <;> omega

/-- What goes on before a place does not depend on the members behind it, only on their number. -/
theorem burden_append_lt {C : List (Fin n)} (hlen : B.length = C.length)
    (h : burden (i :: B) < burden (i :: C)) :
    ∀ A : List (Fin n), burden (A ++ i :: B) < burden (A ++ i :: C) := by
  intro A
  induction A with
  | nil => exact h
  | cons a A ih =>
    -- the head of what follows `a` is the same on both sides
    cases A with
    | nil =>
      rw [List.cons_append, List.cons_append, List.nil_append, List.nil_append, burden_cons_cons,
        burden_cons_cons, List.length_cons, List.length_cons, hlen]
      exact Nat.add_lt_add_left h _
    | cons b A =>
      have htail : (b :: (A ++ i :: B)).length = (b :: (A ++ i :: C)).length := by
        simp only [List.length_cons, List.length_append, hlen]
      rw [List.cons_append, List.cons_append, List.cons_append, List.cons_append,
        burden_cons_cons, burden_cons_cons, htail]
      exact Nat.add_lt_add_left ih _

/-- **A move lowers the burden.** The break in front of the node that moves is gone, and the one
that there may be behind it now has fewer nodes behind it. -/
theorem burden_move_lt (A B : List (Fin n)) (hij : adjacent i j = false)
    (hplace : adjacent i place = true) :
    burden (A ++ i :: place :: B) < burden (A ++ i :: j :: B) := by
  refine burden_append_lt (by rw [List.length_cons, List.length_cons]) ?_ A
  have hbehind := burden_cons_le place j B
  rw [burden_cons_cons, burden_cons_cons, if_pos hplace, hij, if_neg Bool.false_ne_true,
    List.length_cons]
  omega

/-- Each member has no more than all members behind it to answer for. -/
theorem burden_le_sq : ∀ L : List (Fin n), burden L ≤ L.length * L.length
  | [] => le_rfl
  | [_] => Nat.zero_le _
  | i :: j :: L => by
    have ih := burden_le_sq (j :: L)
    have hfirst : (if adjacent i j then 0 else (j :: L).length) ≤ (j :: L).length := by
      split_ifs <;> omega
    rw [burden_cons_cons, List.length_cons (a := i)]
    nlinarith

end Burden

namespace Pool

variable {n : ℕ}

/-- The burden of all chains. -/
def burdens (S : List (List (Fin n))) : ℕ := (S.map burden).sum

/-- The node behind `a` is its neighbour, or it cannot be moved to where its neighbour would be. -/
def SettledAt (p : Pool n) (a : Fin n) : Prop :=
  ∀ b, (p.node a).next = some b → b.val ≠ a.val + 1 →
    ∀ slot : Fin n, slot.val = a.val + 1 → (p.node slot).isAllocated = true

/-- No break can be closed. -/
def Settled (p : Pool n) : Prop := ∀ a, p.SettledAt a

section Settling

variable {p : Pool n} {S T : List (List (Fin n))} {A B : List (Fin n)} {a i j : Fin n}

/-- The burdens of several chains add up. -/
theorem burdens_cons (L : List (Fin n)) (S : List (List (Fin n))) :
    burdens (L :: S) = burden L + burdens S := by
  unfold burdens
  rw [List.map_cons, List.sum_cons]

theorem burdens_perm (hST : S.Perm T) : burdens S = burdens T := (hST.map burden).sum_nat

/-- The total is bounded by the square of the number of members. -/
theorem burdens_le_sq (S : List (List (Fin n))) :
    burdens S ≤ S.flatten.length * S.flatten.length := by
  induction S with
  | nil => exact le_rfl
  | cons L S ih =>
    have hL := burden_le_sq L
    rw [burdens_cons, List.flatten_cons, List.length_append]
    nlinarith

/-! ### Moves lower the burden -/

/-- Closing breaks along a chain leaves a chain whose burden is lower by the number of moves. -/
theorem Chained.closeBreaks_burden : ∀ (fuel : ℕ) {p : Pool n} {A B : List (Fin n)} {i : Fin n}
    (moves : List (Move n)), p.Chained ((A ++ i :: B) :: S) →
    ∃ B', (Pool.closeBreaks fuel i p moves).1.Chained ((A ++ i :: B') :: S) ∧
      burden (A ++ i :: B') + (Pool.closeBreaks fuel i p moves).2.length
        ≤ burden (A ++ i :: B) + moves.length := by
  intro fuel
  induction fuel with
  | zero => exact fun {_ _ B _} _ h => ⟨B, h, le_rfl⟩
  | succ fuel ih =>
    intro p A B i moves h
    cases B with
    | nil =>
      rw [Pool.closeBreaks, h.next_eq]
      exact ⟨[], h, le_rfl⟩
    | cons j B =>
      have hassoc : ∀ (x : Fin n) C, A ++ i :: x :: C = (A ++ [i]) ++ x :: C := fun x C => by
        rw [List.append_assoc, List.singleton_append]
      rw [Pool.closeBreaks, h.next_eq, List.head?_cons]
      dsimp only
      cases hplace : (if adjacent i j then none else p.freePlaceAfter? i) with
      | none =>
        -- the next member stays, and the walk goes on from there
        rw [hassoc] at h
        obtain ⟨B', hB', hle⟩ := ih moves h
        rw [← hassoc] at hB'
        rw [← hassoc, ← hassoc] at hle
        exact ⟨j :: B', hB', hle⟩
      | some place =>
        -- the next member moves, and the walk goes on from its new place
        obtain ⟨hij, hafter⟩ : adjacent i j = false ∧ p.freePlaceAfter? i = some place := by
          split_ifs at hplace with hadj
          exact ⟨by rwa [Bool.not_eq_true] at hadj, hplace⟩
        obtain ⟨hfree, hadj⟩ := freePlaceAfter?_spec hafter
        obtain ⟨hmove, hmap⟩ := h.relocate (h.not_mem_of_free hfree) hij hadj
        have hq := hmove.chained
        rw [hmap, hassoc] at hq
        obtain ⟨B', hB', hle⟩ := ih (⟨j, place⟩ :: moves) hq
        -- every move lightens the burden
        have hlt := burden_move_lt A B hij hadj
        rw [← hassoc] at hB'
        rw [← hassoc, ← hassoc, List.length_cons] at hle
        refine ⟨place :: B', hB', ?_⟩
        dsimp only
        omega

/-- Each move of the outer loop takes something off the total burden. -/
theorem Chained.closeBreaksAt_burden : ∀ (heads : List (Fin n)) {p : Pool n}
    {S : List (List (Fin n))} (moves : List (Move n)), p.Chained S →
    ∃ S', (heads.foldl Pool.closeBreaksAt (p, moves)).1.Chained S' ∧
      burdens S' + (heads.foldl Pool.closeBreaksAt (p, moves)).2.length
        ≤ burdens S + moves.length := by
  intro heads
  -- over the nodes still to be tried; burden and moves together do not grow
  induction heads with
  | nil => exact fun {_ S} _ h => ⟨S, h, le_rfl⟩
  | cons h heads ih =>
    intro p S moves hc
    rw [List.foldl_cons]
    cases hhandle : p.isHandle h with
    | false =>
      -- a node that is no handle changes neither
      have hskip : Pool.closeBreaksAt (p, moves) h = (p, moves) :=
        if_neg (by rw [hhandle]; exact Bool.false_ne_true)
      rw [hskip]
      exact ih moves hc
    | true =>
      have hstep : Pool.closeBreaksAt (p, moves) h = Pool.closeBreaks n h p moves :=
        if_pos hhandle
      obtain ⟨B, T, hST, hcT⟩ := hc.exists_handle hhandle
      obtain ⟨B', hB', hle⟩ := hcT.closeBreaks_burden (A := []) n moves
      obtain ⟨S', hS', hle'⟩ := ih (Pool.closeBreaks n h p moves).2 hB'
      rw [hstep]
      refine ⟨S', hS', ?_⟩
      -- the chain of the handle is put first, and its own bound is added to that of the rest
      rw [burdens_perm hST]
      rw [burdens_cons] at hle' ⊢
      rw [List.nil_append, List.nil_append] at hle
      rw [List.nil_append] at hle'
      exact hle'.trans (by omega)

/-- **Each move of defragmentation lowers the burden.** -/
theorem Chained.defrag_burden (h : p.Chained S) :
    ∃ S', p.defrag.1.Chained S' ∧ burdens S' + p.defrag.2.length ≤ burdens S := by
  obtain ⟨S', hS', hle⟩ := h.closeBreaksAt_burden (List.finRange n) []
  refine ⟨S', hS', ?_⟩
  change burdens S' + (List.reverse _).length ≤ burdens S
  rw [List.length_reverse]
  exact hle

/-! ### Passes without a move -/

/-- There is no place beside a node if the slot after it is taken or does not exist. -/
theorem freePlaceAfter?_eq_none_iff : p.freePlaceAfter? i = none ↔
    ∀ slot : Fin n, slot.val = i.val + 1 → (p.node slot).isAllocated = true := by
  unfold freePlaceAfter?
  split_ifs with hlt ha
  · refine iff_of_true rfl fun slot hslot => ?_
    rwa [show slot = ⟨i.val + 1, hlt⟩ from Fin.ext hslot]
  · exact iff_of_false (by simp) fun h => ha (h ⟨i.val + 1, hlt⟩ rfl)
  · exact iff_of_true rfl fun slot hslot => absurd (hslot ▸ slot.isLt) hlt

/-- A break can be closed where there is a place for the next node. -/
theorem settledAt_iff (hnext : (p.node i).next = some j) :
    p.SettledAt i ↔ (if adjacent i j then none else p.freePlaceAfter? i) = none := by
  have hbreak : adjacent i j = true ↔ j.val = i.val + 1 := by
    unfold adjacent
    rw [beq_iff_eq, eq_comm]
  unfold SettledAt
  split_ifs with hadj
  · -- next to its successor a node is settled, and there is nothing to look for
    refine iff_of_true (fun b hb hne => ?_) rfl
    obtain rfl := Option.some.inj (hb.symm.trans hnext)
    exact absurd (hbreak.mp hadj) hne
  · -- otherwise all depends on the slot beside it
    rw [freePlaceAfter?_eq_none_iff]
    constructor
    · exact fun h => h j hnext fun he => hadj (hbreak.mpr he)
    · exact fun h _ _ _ => h

/-- The last member of a chain is settled. -/
theorem settledAt_of_last (hnext : (p.node i).next = none) : p.SettledAt i :=
  fun _ hb => absurd (hb.symm.trans hnext) (by simp)

/-- The moves that have been made are not forgotten. -/
theorem length_le_closeBreaks : ∀ (fuel : ℕ) (i : Fin n) (p : Pool n) (moves : List (Move n)),
    moves.length ≤ (closeBreaks fuel i p moves).2.length := by
  intro fuel
  -- along the chain: a move is put in front, and none is taken away
  induction fuel with
  | zero => exact fun _ _ _ => le_rfl
  | succ fuel ih =>
    intro i p moves
    rw [closeBreaks]
    split
    · exact le_rfl
    · split
      · exact (Nat.le_succ _).trans (ih _ _ (_ :: moves))
      · exact ih _ _ moves

/-- Over all chains the list of moves only grows. -/
theorem length_le_closeBreaksAt : ∀ (heads : List (Fin n)) (state : Pool n × List (Move n)),
    state.2.length ≤ (heads.foldl closeBreaksAt state).2.length := by
  intro heads
  induction heads with
  | nil => exact fun _ => le_rfl
  | cons h heads ih =>
    intro state
    refine le_trans ?_ (ih (closeBreaksAt state h))
    -- one node more: its chain, or nothing
    unfold closeBreaksAt
    dsimp only
    split_ifs
    · exact length_le_closeBreaks n h state.1 state.2
    · exact le_rfl

/-- Walking along a chain makes a move, or finds every member settled and changes nothing. -/
theorem Layout.closeBreaks_eq_self_or : ∀ (fuel : ℕ) {A B : List (Fin n)} {i : Fin n}
    (moves : List (Move n)), p.Layout ((A ++ i :: B) :: S) → B.length < fuel →
    (Pool.closeBreaks fuel i p moves = (p, moves) ∧ ∀ a ∈ i :: B, p.SettledAt a) ∨
      moves.length < (Pool.closeBreaks fuel i p moves).2.length := by
  intro fuel
  induction fuel with
  | zero => exact fun _ _ hf => absurd hf (Nat.not_lt_zero _)
  | succ fuel ih =>
    intro A B i moves h hf
    cases B with
    | nil =>
      rw [Pool.closeBreaks, h.next_eq]
      refine .inl ⟨rfl, fun a ha => ?_⟩
      rw [List.mem_singleton.mp ha]
      exact settledAt_of_last h.next_eq
    | cons j B =>
      have hnext : (p.node i).next = some j := h.next_eq
      rw [Pool.closeBreaks, hnext]
      dsimp only
      cases hplace : (if adjacent i j then none else p.freePlaceAfter? i) with
      -- a member is moved
      | some place =>
        exact .inr (length_le_closeBreaks fuel place (p.relocate j place) (⟨j, place⟩ :: moves))
      | none =>
        -- the first member is settled, and the others are up to the rest of the walk
        have hi : p.SettledAt i := (settledAt_iff hnext).mpr hplace
        have hrest : p.Layout (((A ++ [i]) ++ j :: B) :: S) := by
          rwa [List.append_assoc, List.singleton_append]
        refine (ih moves hrest (Nat.lt_of_succ_lt_succ hf)).imp_left fun hself => ?_
        refine ⟨hself.1, fun a ha => ?_⟩
        rcases List.mem_cons.mp ha with rfl | ha
        · exact hi
        · exact hself.2 a ha

/-- Either all chains of the nodes tried are settled and nothing has happened, or there has been a
move. -/
theorem Chained.closeBreaksAt_eq_self_or (hc : p.Chained S) (moves : List (Move n)) :
    ∀ heads : List (Fin n), (heads.foldl Pool.closeBreaksAt (p, moves) = (p, moves) ∧
      ∀ h ∈ heads, p.isHandle h = true → ∀ a ∈ p.chain h, p.SettledAt a) ∨
      moves.length < (heads.foldl Pool.closeBreaksAt (p, moves)).2.length := by
  intro heads
  induction heads with
  | nil => exact .inl ⟨rfl, fun _ hh => absurd hh List.not_mem_nil⟩
  | cons h heads ih =>
    rw [List.foldl_cons]
    -- what the first starting point does, or leaves to the others
    have hfirst : (Pool.closeBreaksAt (p, moves) h = (p, moves) ∧
        (p.isHandle h = true → ∀ a ∈ p.chain h, p.SettledAt a)) ∨
        moves.length < (Pool.closeBreaksAt (p, moves) h).2.length := by
      unfold Pool.closeBreaksAt
      dsimp only
      split_ifs with hhandle
      · obtain ⟨B, T, -, hT⟩ := hc.exists_handle hhandle
        have hlen := hT.length_le
        rw [List.flatten_cons, List.length_append, List.length_cons] at hlen
        have hwalk := hT.closeBreaks_eq_self_or (A := []) n moves (by omega)
        rw [hT.toLayout.chain_eq (A := [])]
        exact hwalk.imp_left fun hself => ⟨hself.1, fun _ => hself.2⟩
      · exact .inl ⟨rfl, fun hh => absurd hh hhandle⟩
    -- it has moved nothing, or there is a move already
    rcases hfirst with ⟨hself, hsettled⟩ | hlt
    · rw [hself]
      refine ih.imp_left fun hrest => ⟨hrest.1, fun g hg => ?_⟩
      rcases List.mem_cons.mp hg with rfl | hg
      · exact hsettled
      · exact hrest.2 g hg
    · exact .inr (hlt.trans_le (length_le_closeBreaksAt heads _))

/-- **A pass without a move** changes nothing and finds the pool settled. -/
theorem Chained.settled_of_defrag (hc : p.Chained S) (hmoves : p.defrag.2 = []) :
    p.defrag.1 = p ∧ p.Settled := by
  have hnone : ((List.finRange n).foldl Pool.closeBreaksAt (p, [])).2 = [] := by
    rw [← List.reverse_eq_nil_iff]
    exact hmoves
  obtain ⟨hself, hsettled⟩ := (hc.closeBreaksAt_eq_self_or [] (List.finRange n)).resolve_right
    (by rw [hnone]; exact Nat.lt_irrefl 0)
  refine ⟨congrArg Prod.fst hself, fun a => ?_⟩
  by_cases ha : (p.node a).isAllocated = true
  · -- an allocated node is in the chain of some handle
    have hmem : a ∈ p.handles.flatMap p.chain :=
      hc.flatMap_chain_perm.mem_iff.mpr ((hc.allocated_iff a).mp ha)
    obtain ⟨h, hh, hah⟩ := List.mem_flatMap.mp hmem
    exact hsettled h (List.mem_finRange h) (List.mem_filter.mp hh).2 a hah
  · rw [Bool.not_eq_true] at ha
    exact settledAt_of_last (hc.unused a (hc.not_mem_of_free ha)).next

/-- A settled pool is left as it is. -/
theorem Settled.closeBreaks (hs : p.Settled) : ∀ (fuel : ℕ) (i : Fin n) (moves : List (Move n)),
    Pool.closeBreaks fuel i p moves = (p, moves) := by
  intro fuel
  -- along the chain, where each successor is passed without a move
  induction fuel with
  | zero => exact fun _ _ => rfl
  | succ fuel ih =>
    intro i moves
    rw [Pool.closeBreaks]
    cases hnext : (p.node i).next with
    | none => rfl
    | some j =>
      dsimp only
      rw [(settledAt_iff hnext).mp (hs i)]
      exact ih j moves

/-- A settled pool is left as it is. -/
theorem Settled.defrag (hs : p.Settled) : p.defrag = (p, []) := by
  -- over the nodes tried: each of them leaves the pool and the moves alone
  have hfold : ∀ heads : List (Fin n),
      heads.foldl Pool.closeBreaksAt (p, []) = (p, []) := by
    intro heads
    induction heads with
    | nil => rfl
    | cons h heads ih =>
      have hstep : Pool.closeBreaksAt (p, []) h = (p, []) := by
        unfold Pool.closeBreaksAt
        dsimp only
        rw [hs.closeBreaks, ite_self]
      rw [List.foldl_cons, hstep, ih]
  unfold Pool.defrag
  rw [hfold]
  rfl

/-- **Defragmentation makes no move exactly in a settled pool.** -/
theorem Chained.defrag_eq_nil_iff (hc : p.Chained S) : p.defrag.2 = [] ↔ p.Settled :=
  ⟨fun hmoves => (hc.settled_of_defrag hmoves).2, fun hs => by rw [hs.defrag]⟩

end Settling

end Pool

end Machine6809
