import Machine6809.Proofs.Pool.Nodes
import Mathlib.Algebra.GroupWithZero.Nat
import Mathlib.Data.Fintype.Card
import Mathlib.Data.List.Chain
import Mathlib.Data.List.Nodup

/-!
# Strands and layouts

A *strand* is a list of nodes that are linked one after the other, with free ends. A *layout* of a
pool is a list of strands that holds each allocated node exactly once, together with what the
counters and the search hint have to say about it. The roots of the nodes play no part here: a
strand need not be a chain, only a piece of one, as it is while a chain is being taken apart and
put together again. Empty strands are allowed and mean nothing, so that a chain can be cut at its
ends in the same way as in its middle.

Every basic operation of the pool is one edit of the layout:

* `Layout.link` joins the end of a strand to the start of another, `Layout.unlink` cuts a strand
  in two, and `linkFrom`, `linkTo`, `unlinkFrom`, `unlinkTo` do so beside a node wherever it is;
* `Layout.claim` adds a strand of one node, `Layout.release` drops one, and `Layout.move` puts
  another node in its place.

The counters are exact in a layout and have never overrun: each edit carries its own part of that,
so no operation put together from these edits can lose count.
-/

namespace Machine6809

/-! ### Breaks in a list of positions -/

/-- The number of breaks in a list: the members that are followed by one that does not lie right
behind them. -/
def breaksIn {n : ℕ} : List (Fin n) → ℕ
  | i :: j :: rest => (if adjacent i j then 0 else 1) + breaksIn (j :: rest)
  | _ => 0

section Breaks

variable {n : ℕ}

@[simp] theorem breaksIn_nil : breaksIn ([] : List (Fin n)) = 0 := rfl

@[simp] theorem breaksIn_singleton (i : Fin n) : breaksIn [i] = 0 := rfl

theorem breaksIn_cons_cons (i j : Fin n) (L : List (Fin n)) :
    breaksIn (i :: j :: L) = (if adjacent i j then 0 else 1) + breaksIn (j :: L) := rfl

/-- The breaks of two lists that are joined: those of each and the one at the seam. -/
theorem breaksIn_append_cons_cons (A B : List (Fin n)) (i j : Fin n) :
    breaksIn (A ++ i :: j :: B)
      = breaksIn (A ++ [i]) + (if adjacent i j then 0 else 1) + breaksIn (j :: B) := by
  induction A with
  | nil => rw [List.nil_append, List.nil_append, breaksIn_cons_cons, breaksIn_singleton,
      Nat.zero_add]
  | cons a A ih =>
    -- the head of what follows `a` is the same on both sides
    cases A with
    | nil =>
      rw [List.nil_append] at ih
      rw [List.cons_append, List.nil_append, breaksIn_cons_cons, ih, List.cons_append,
        List.nil_append, breaksIn_cons_cons]
      omega
    | cons b A =>
      rw [List.cons_append] at ih
      rw [List.cons_append, List.cons_append, breaksIn_cons_cons, ih, List.cons_append,
        List.cons_append, List.cons_append, breaksIn_cons_cons]
      omega

theorem breaksIn_le_length : ∀ L : List (Fin n), breaksIn L ≤ L.length
  | [] => le_rfl
  | [_] => Nat.zero_le _
  | i :: j :: L => by
    have ih := breaksIn_le_length (j :: L)
    rw [breaksIn_cons_cons, List.length_cons]
    split_ifs <;> omega

/-- There are no more breaks than members in all chains together, so the counter of breaks fits its
word. -/
theorem sum_breaksIn_le_length (S : List (List (Fin n))) :
    (S.map breaksIn).sum ≤ S.flatten.length := by
  induction S with
  | nil => exact le_rfl
  | cons L S ih =>
    rw [List.map_cons, List.sum_cons, List.flatten_cons, List.length_append]
    exact Nat.add_le_add (breaksIn_le_length L) ih

end Breaks

namespace Pool

variable {n : ℕ}

/-! ### Strands -/

/-- The second node follows the first, and the links of both say so. -/
def Joined (p : Pool n) (i j : Fin n) : Prop :=
  (p.node i).next = some j ∧ (p.node j).prev = some i

/-- A list of nodes that are linked one after the other, with free ends. -/
structure Strand (p : Pool n) (L : List (Fin n)) : Prop where
  joined : L.IsChain p.Joined
  first : ∀ i, L.head? = some i → (p.node i).prev = none
  last : ∀ i, L.getLast? = some i → (p.node i).next = none

theorem strand_nil (p : Pool n) : p.Strand [] :=
  ⟨List.IsChain.nil, fun _ h => absurd h (by simp), fun _ h => absurd h (by simp)⟩

/-- A strand depends on the links of its members only. -/
theorem Strand.congr {p q : Pool n} {L : List (Fin n)} (h : p.Strand L)
    (hn : ∀ i ∈ L, (q.node i).next = (p.node i).next)
    (hp : ∀ i ∈ L, (q.node i).prev = (p.node i).prev) : q.Strand L where
  joined := h.joined.imp_of_mem_imp fun a b ha hb hab =>
    ⟨(hn a ha).trans hab.1, (hp b hb).trans hab.2⟩
  first := fun i hi => (hp i (List.mem_of_mem_head? hi)).trans (h.first i hi)
  last := fun i hi => (hn i (List.mem_of_mem_getLast? hi)).trans (h.last i hi)

/-- The previous link of a member of a strand. -/
theorem Strand.prev_eq {p : Pool n} {A B : List (Fin n)} {i : Fin n}
    (h : p.Strand (A ++ i :: B)) : (p.node i).prev = A.getLast? := by
  rcases List.eq_nil_or_concat A with rfl | ⟨A', a, rfl⟩
  · exact h.first i rfl
  · -- the last node before `i` is joined to it
    have hj := h.joined
    rw [List.concat_eq_append, List.append_assoc, List.singleton_append,
      List.isChain_append_cons_cons] at hj
    rw [hj.2.1.2, List.concat_eq_append, List.getLast?_append]
    rfl

/-- The next link of a member of a strand. -/
theorem Strand.next_eq {p : Pool n} {A B : List (Fin n)} {i : Fin n}
    (h : p.Strand (A ++ i :: B)) : (p.node i).next = B.head? := by
  cases B with
  | nil => exact h.last i (by rw [List.getLast?_append]; rfl)
  | cons b B =>
    -- the first node behind `i` is joined to it
    have hj := h.joined
    rw [List.isChain_append_cons_cons] at hj
    exact hj.2.1.1

/-- Cutting a strand between two members leaves two strands, as far as the links go. -/
theorem Joined.unlink {p : Pool n} {i j a b : Fin n} (h : p.Joined a b) (ha : a ≠ i)
    (hb : b ≠ j) : (p.unlink i j).Joined a b := by
  refine ⟨?_, ?_⟩
  · rw [unlink_next, if_neg ha]
    exact h.1
  · rw [unlink_prev, if_neg hb]
    exact h.2

/-- A new link between free ends leaves the links that are there. -/
theorem Joined.link {p : Pool n} {i j a b : Fin n} (hi : (p.node i).next = none)
    (hj : (p.node j).prev = none) (h : p.Joined a b) : (p.link i j).Joined a b := by
  -- the ends of the new link had none on these sides, so they are no ends of the old one
  have ha : a ≠ i := by
    rintro rfl
    exact absurd (h.1.symm.trans hi) (by simp)
  have hb : b ≠ j := by
    rintro rfl
    exact absurd (h.2.symm.trans hj) (by simp)
  refine ⟨?_, ?_⟩
  · rw [link_next, if_neg ha]
    exact h.1
  · rw [link_prev, if_neg hb]
    exact h.2

/-- Linking two nodes joins them. -/
theorem joined_link (p : Pool n) (i j : Fin n) : (p.link i j).Joined i j :=
  ⟨by rw [link_next, if_pos rfl], by rw [link_prev, if_pos rfl]⟩

/-! ### Layouts -/

/-- The strands hold each allocated node exactly once, the free nodes are unused, and the counters
and the hint agree with that. Positions have to fit in words, or else the counters could not. -/
structure Layout (p : Pool n) (S : List (List (Fin n))) : Prop where
  size_lt : n < 65536
  nodup : S.flatten.Nodup
  strand : ∀ L ∈ S, p.Strand L
  allocated_iff : ∀ i, (p.node i).isAllocated = true ↔ i ∈ S.flatten
  unused : ∀ i, i ∉ S.flatten → (p.node i).IsUnused
  below_hint : ∀ i : Fin n, i.val < p.hint → i ∈ S.flatten
  free_shows : p.free.Shows (n - S.flatten.length)
  allocated_shows : p.allocated.Shows S.flatten.length
  breaks_shows : p.breaks.Shows (S.map breaksIn).sum

/-- In a pool that has just been made there are no chains. -/
theorem layout_empty (hn : n < 65536) : (empty : Pool n).Layout [] where
  size_lt := hn
  nodup := List.nodup_nil
  strand := fun _ h => absurd h List.not_mem_nil
  allocated_iff := fun i => by
    rw [node_empty]
    exact ⟨fun h => absurd h Bool.false_ne_true, fun h => absurd h List.not_mem_nil⟩
  unused := fun i _ => by
    rw [node_empty]
    exact Node.isUnused_free
  below_hint := fun i hi => absurd hi (Nat.not_lt_zero _)
  free_shows := Counter.shows_start hn
  allocated_shows := Counter.shows_start (Nat.succ_pos _)
  breaks_shows := Counter.shows_start (Nat.succ_pos _)

/-- The third of a list comes to the front. -/
theorem perm_third {α : Type*} (a b c : α) (S : List α) :
    (a :: b :: c :: S).Perm (c :: a :: b :: S) :=
  ((List.Perm.swap c b S).cons a).trans (List.Perm.swap c a (b :: S))

section Layout

variable {p : Pool n} {S T : List (List (Fin n))} {A B L : List (Fin n)} {i j : Fin n}

/-- There are no more allocated nodes than nodes. -/
theorem Layout.length_le (h : p.Layout S) : S.flatten.length ≤ n := by
  have hle := h.nodup.length_le_card
  rwa [Fintype.card_fin] at hle

/-- The order of the strands means nothing. -/
theorem Layout.perm (h : p.Layout S) (hST : S.Perm T) : p.Layout T := by
  -- members, length and breaks do not depend on the order
  have hflat := hST.flatten
  refine ⟨h.size_lt, hflat.nodup_iff.mp h.nodup, fun L hL => h.strand L (hST.mem_iff.mpr hL),
    fun i => (h.allocated_iff i).trans hflat.mem_iff,
    fun i hi => h.unused i (fun hm => hi (hflat.mem_iff.mp hm)),
    fun i hi => hflat.mem_iff.mp (h.below_hint i hi), ?_, ?_, ?_⟩
  · rw [← hflat.length_eq]
    exact h.free_shows
  · rw [← hflat.length_eq]
    exact h.allocated_shows
  · rw [← (hST.map breaksIn).sum_nat]
    exact h.breaks_shows

/-- Empty strands mean nothing. -/
theorem layout_nil_cons : p.Layout ([] :: S) ↔ p.Layout S := by
  constructor
  · -- an empty list can go
    intro h
    exact ⟨h.size_lt, h.nodup, fun L hL => h.strand L (List.mem_cons_of_mem _ hL),
      h.allocated_iff, h.unused, h.below_hint, h.free_shows, h.allocated_shows,
      by have hb := h.breaks_shows; rwa [List.map_cons, List.sum_cons, breaksIn_nil,
        Nat.zero_add] at hb⟩
  · -- and it can be added
    intro h
    refine ⟨h.size_lt, h.nodup, fun L hL => ?_, h.allocated_iff, h.unused, h.below_hint,
      h.free_shows, h.allocated_shows, ?_⟩
    · rcases List.mem_cons.mp hL with rfl | hL
      · exact strand_nil p
      · exact h.strand L hL
    · rw [List.map_cons, List.sum_cons, breaksIn_nil, Nat.zero_add]
      exact h.breaks_shows

theorem Layout.swap (h : p.Layout (A :: B :: S)) : p.Layout (B :: A :: S) :=
  h.perm (List.Perm.swap B A S)

/-- Members of a chain are allocated. -/
theorem Layout.isAllocated (h : p.Layout (L :: S)) (hi : i ∈ L) :
    (p.node i).isAllocated = true :=
  (h.allocated_iff i).mpr (List.mem_append_left _ hi)

/-- A free node is in no chain. -/
theorem Layout.not_mem_of_free (h : p.Layout S) (hi : (p.node i).isAllocated = false) :
    i ∉ S.flatten := fun hm => absurd ((h.allocated_iff i).mpr hm) (by rw [hi]; simp)

/-- An allocated node can be brought to the front: its strand is cut there in what is before it
and what is behind it. -/
theorem Layout.exists_focus (h : p.Layout S) (hi : (p.node i).isAllocated = true) :
    ∃ A B T, S.Perm ((A ++ i :: B) :: T) ∧ p.Layout ((A ++ i :: B) :: T) := by
  obtain ⟨L, hL, hiL⟩ := List.mem_flatten.mp ((h.allocated_iff i).mp hi)
  obtain ⟨A, B, rfl⟩ := List.append_of_mem hiL
  have hperm := List.perm_cons_erase hL
  exact ⟨A, B, _, hperm, h.perm hperm⟩

/-- The members of a strand are all different. -/
theorem Layout.nodup_head (h : p.Layout (L :: S)) : L.Nodup := by
  have hnd := h.nodup
  rw [List.flatten_cons, List.nodup_append] at hnd
  exact hnd.1

/-- A member occurs once in its strand. -/
theorem Layout.not_mem_both (h : p.Layout ((A ++ i :: B) :: S)) : i ∉ A ++ B :=
  (List.nodup_cons.mp (List.nodup_middle.mp h.nodup_head)).1

/-- The node before a member is the last of those in front of it. -/
theorem Layout.prev_eq (h : p.Layout ((A ++ i :: B) :: S)) : (p.node i).prev = A.getLast? :=
  (h.strand _ List.mem_cons_self).prev_eq

/-- The node after a member is the first of those behind it. -/
theorem Layout.next_eq (h : p.Layout ((A ++ i :: B) :: S)) : (p.node i).next = B.head? :=
  (h.strand _ List.mem_cons_self).next_eq

/-! ### Edits of the links -/

/-- A link that ends outside a strand leaves it alone. -/
theorem Strand.link (h : p.Strand L) (hi : (p.node i).next = none) (hj : (p.node j).prev = none)
    (hiL : i ∉ L) (hjL : j ∉ L) : (p.link i j).Strand L where
  joined := h.joined.imp fun _ _ hab => hab.link hi hj
  -- only the second node gets another predecessor, and only the first another successor
  first := fun k hk => by
    have hne : k ≠ j := fun he => hjL (he ▸ List.mem_of_mem_head? hk)
    rw [link_prev, if_neg hne]
    exact h.first k hk
  last := fun k hk => by
    have hne : k ≠ i := fun he => hiL (he ▸ List.mem_of_mem_getLast? hk)
    rw [link_next, if_neg hne]
    exact h.last k hk

/-- The end of one strand and the start of another can be joined. -/
theorem Strand.append (hA : p.Strand (A ++ [i])) (hB : p.Strand (j :: B))
    (hiB : i ∉ j :: B) (hjA : j ∉ A ++ [i]) : (p.link i j).Strand (A ++ i :: j :: B) := by
  have hi : (p.node i).next = none := hA.last i (by simp)
  have hj : (p.node j).prev = none := hB.first j rfl
  refine ⟨?_, fun k hk => ?_, fun k hk => ?_⟩
  · rw [List.isChain_append_cons_cons]
    exact ⟨hA.joined.imp fun _ _ hab => hab.link hi hj, joined_link p i j,
      hB.joined.imp fun _ _ hab => hab.link hi hj⟩
  · -- the joined strand begins where the first one does
    have hk' : (A ++ [i]).head? = some k := by
      rw [← hk]
      cases A <;> rfl
    have hne : k ≠ j := fun he => hjA (he ▸ List.mem_of_mem_head? hk')
    rw [link_prev, if_neg hne]
    exact hA.first k hk'
  · -- and it ends where the second one does
    have hk' : (j :: B).getLast? = some k := by
      rw [← hk, List.getLast?_append, List.getLast?_cons_cons]
      cases hl : (j :: B).getLast? with
      | none => exact absurd (List.getLast?_eq_none_iff.mp hl) (List.cons_ne_nil j B)
      | some l => rfl
    have hne : k ≠ i := fun he => hiB (he ▸ List.mem_of_mem_getLast? hk')
    rw [link_next, if_neg hne]
    exact hB.last k hk'

/-- Cutting a link concerns only the strand that holds both ends. -/
theorem isChain_unlink (hL : L.IsChain p.Joined) (hij : p.Joined i j) (h : i ∉ L ∨ j ∉ L) :
    L.IsChain (p.unlink i j).Joined := by
  refine hL.imp_of_mem_imp fun a b ha hb hab => ?_
  -- a link in the list that shares one end with the link that is cut is that link
  have haj : a = i → b = j := by
    rintro rfl
    exact Option.some.inj (hab.1.symm.trans hij.1)
  have hbi : b = j → a = i := by
    rintro rfl
    exact Option.some.inj (hab.2.symm.trans hij.2)
  rcases h with h | h
  · have hai : a ≠ i := fun he => h (he ▸ ha)
    exact hab.unlink hai (fun he => hai (hbi he))
  · have hbj : b ≠ j := fun he => h (he ▸ hb)
    exact hab.unlink (fun he => hbj (haj he)) hbj

/-- Cutting a link at a node outside a strand leaves the strand a strand. -/
theorem Strand.unlink (h : p.Strand L) (hij : p.Joined i j) (hL : i ∉ L) :
    (p.unlink i j).Strand L where
  joined := isChain_unlink h.joined hij (Or.inl hL)
  -- an end whose link is cut has no neighbour there, which is what an end needs
  first := fun k hk => by
    rw [unlink_prev]
    split_ifs with hkj
    · rfl
    · exact h.first k hk
  last := fun k hk => by
    rw [unlink_next]
    split_ifs with hki
    · rfl
    · exact h.last k hk

/-- A strand can be cut between two members. -/
theorem Strand.split (h : p.Strand (A ++ i :: j :: B)) (hnd : (A ++ i :: j :: B).Nodup) :
    (p.unlink i j).Strand (A ++ [i]) ∧ (p.unlink i j).Strand (j :: B) := by
  have hj := h.joined
  rw [List.isChain_append_cons_cons] at hj
  obtain ⟨hA, hij, hB⟩ := hj
  have hsplit : A ++ i :: j :: B = (A ++ [i]) ++ (j :: B) := by
    rw [List.append_assoc, List.singleton_append]
  rw [hsplit, List.nodup_append] at hnd
  obtain ⟨-, -, hdisj⟩ := hnd
  -- no node occurs twice, so each end of the cut is on one side only
  have hjA : j ∉ A ++ [i] := fun hm => hdisj j hm j List.mem_cons_self rfl
  have hiB : i ∉ j :: B := fun hm => hdisj i (by simp) i hm rfl
  -- the outer ends are those of the whole strand, the inner ends are free by the cut
  refine ⟨⟨isChain_unlink hA hij (Or.inr hjA), fun k hk => ?_, fun k hk => ?_⟩,
    ⟨isChain_unlink hB hij (Or.inl hiB), fun k hk => ?_, fun k hk => ?_⟩⟩
  · have hk' : (A ++ i :: j :: B).head? = some k := by
      rw [← hk]
      cases A <;> rfl
    rw [unlink_prev]
    split_ifs
    · rfl
    · exact h.first k hk'
  · obtain rfl : i = k := by simpa using hk
    rw [unlink_next, if_pos rfl]
  · obtain rfl : j = k := Option.some.inj hk
    rw [unlink_prev, if_pos rfl]
  · have hk' : (A ++ i :: j :: B).getLast? = some k := by
      rw [hsplit, List.getLast?_append, hk]
      rfl
    rw [unlink_next]
    split_ifs
    · rfl
    · exact h.last k hk'

/-- Members of the first strand are in no other. -/
theorem Layout.not_mem_of_mem (h : p.Layout (L :: S)) (hi : i ∈ L) : i ∉ S.flatten := by
  have hnd := h.nodup
  rw [List.flatten_cons, List.nodup_append] at hnd
  exact fun hm => hnd.2.2 i hi i hm rfl

/-- Rewiring two allocated nodes concerns the strands and the breaks only. -/
theorem Layout.rewire (h : p.Layout S) {next prev : Option (Fin n)} {breaks : Counter}
    (hflat : T.flatten = S.flatten) (hi : i ∈ S.flatten) (hj : j ∈ S.flatten)
    (hstrand : ∀ L ∈ T, (p.rewire i j next prev breaks).Strand L)
    (hbreaks : breaks.Shows (T.map breaksIn).sum) :
    (p.rewire i j next prev breaks).Layout T := by
  refine
    { size_lt := h.size_lt
      nodup := hflat ▸ h.nodup
      strand := hstrand
      allocated_iff := ?allocated
      unused := ?unused
      below_hint := ?hint
      free_shows := ?free
      allocated_shows := ?count
      breaks_shows := hbreaks }
  case allocated =>
    -- being allocated is part of the content, which no link touches
    intro k
    rw [Node.isAllocated_congr (rewire_content p i j k next prev breaks), hflat]
    exact h.allocated_iff k
  case unused =>
    intro k hk
    rw [hflat] at hk
    -- free nodes are neither of the two that are linked
    have hki : k ≠ i := fun he => hk (he ▸ hi)
    have hkj : k ≠ j := fun he => hk (he ▸ hj)
    rw [rewire_node_of_ne hki hkj]
    exact h.unused k hk
  case hint =>
    intro k hk
    rw [hflat]
    exact h.below_hint k hk
  case free =>
    rw [hflat]
    exact h.free_shows
  case count =>
    rw [hflat]
    exact h.allocated_shows

/-- **Setting a link** joins two strands, end to start. -/
theorem Layout.link (h : p.Layout ((A ++ [i]) :: (j :: B) :: S)) :
    (p.link i j).Layout ((A ++ i :: j :: B) :: S) := by
  -- the nodes are the same, in one strand instead of two
  have hflat : ((A ++ i :: j :: B) :: S).flatten = ((A ++ [i]) :: (j :: B) :: S).flatten := by
    simp only [List.flatten_cons, List.append_assoc, List.cons_append, List.nil_append]
  have hiS : i ∉ ((j :: B) :: S).flatten := h.not_mem_of_mem (by simp)
  have hjS : j ∉ ((A ++ [i]) :: S).flatten := h.swap.not_mem_of_mem List.mem_cons_self
  rw [List.flatten_cons, List.mem_append, not_or] at hiS hjS
  have hA := h.strand (A ++ [i]) List.mem_cons_self
  have hB := h.strand (j :: B) (List.mem_cons_of_mem _ List.mem_cons_self)
  rw [link_eq_rewire]
  refine h.rewire hflat (by simp) (by simp) (fun L hL => ?_) ?_
  · rw [← link_eq_rewire]
    rcases List.mem_cons.mp hL with rfl | hL
    · exact hA.append hB hiS.1 hjS.1
    · -- both ends of the link are free and lie outside the other strands
      exact (h.strand L (by simp [hL])).link (hA.last i (by simp)) (hB.first j rfl)
        (fun hm => hiS.2 (List.mem_flatten_of_mem hL hm))
        (fun hm => hjS.2 (List.mem_flatten_of_mem hL hm))
  · -- the counter has room for one more break, since every break sits at a node of its own
    have hle := h.length_le
    have hsum := sum_breaksIn_le_length ((A ++ i :: j :: B) :: S)
    have hsize := h.size_lt
    have hb := h.breaks_shows
    rw [hflat] at hsum
    simp only [List.map_cons, List.sum_cons, breaksIn_append_cons_cons] at hb hsum ⊢
    split_ifs with hadj
    · rw [if_pos hadj] at hsum
      rwa [Nat.add_zero, Nat.add_assoc]
    · rw [if_neg hadj] at hsum
      have hup := hb.up (by omega)
      convert hup using 1
      omega

/-- **Cutting a link** makes two strands of one. -/
theorem Layout.unlink (h : p.Layout ((A ++ i :: j :: B) :: S)) :
    (p.unlink i j).Layout ((A ++ [i]) :: (j :: B) :: S) := by
  -- the nodes are the same, in two strands instead of one
  have hflat : ((A ++ [i]) :: (j :: B) :: S).flatten = ((A ++ i :: j :: B) :: S).flatten := by
    simp only [List.flatten_cons, List.append_assoc, List.cons_append, List.nil_append]
  have hL₀ := h.strand (A ++ i :: j :: B) List.mem_cons_self
  have hij : p.Joined i j := by
    have hj := hL₀.joined
    rw [List.isChain_append_cons_cons] at hj
    exact hj.2.1
  have hiS : i ∉ S.flatten := h.not_mem_of_mem (by simp)
  obtain ⟨hA, hB⟩ := hL₀.split h.nodup_head
  rw [unlink_eq_rewire]
  refine h.rewire hflat (by simp) (by simp) (fun L hL => ?_) ?_
  · rw [← unlink_eq_rewire]
    rcases List.mem_cons.mp hL with rfl | hL
    · exact hA
    · rcases List.mem_cons.mp hL with rfl | hL
      · exact hB
      · -- the other strands do not hold the link that is cut
        exact (h.strand L (by simp [hL])).unlink hij
          (fun hm => hiS (List.mem_flatten_of_mem hL hm))
  · -- a break that is cut has been counted, so the count is not zero
    have hb := h.breaks_shows
    simp only [List.map_cons, List.sum_cons, breaksIn_append_cons_cons] at hb ⊢
    split_ifs with hadj
    · rw [if_pos hadj] at hb
      rwa [Nat.add_zero, Nat.add_assoc] at hb
    · rw [if_neg hadj] at hb
      apply Counter.Shows.downToZero
      convert hb using 1
      omega

/-! ### Edits beside a node -/

/-- Cutting off what is before a node, which may be nothing. -/
theorem Layout.unlinkFrom (h : p.Layout ((A ++ i :: B) :: S)) :
    (p.unlinkFrom A.getLast? i).Layout (A :: (i :: B) :: S) := by
  rcases List.eq_nil_or_concat A with rfl | ⟨A', a, rfl⟩
  · -- nothing is before the node, and the empty strand stands for it
    exact layout_nil_cons.mpr h
  · rw [List.concat_eq_append, List.append_assoc] at h
    rw [List.concat_eq_append, List.getLast?_append]
    exact h.unlink

/-- Cutting off what is behind a node, which may be nothing. -/
theorem Layout.unlinkTo (h : p.Layout ((A ++ i :: B) :: S)) :
    (p.unlinkTo i B.head?).Layout ((A ++ [i]) :: B :: S) := by
  cases B with
  | nil => exact (layout_nil_cons.mpr h).swap
  | cons b B => exact h.unlink

/-- Joining what is to stand before a node, which may be nothing. -/
theorem Layout.linkFrom (h : p.Layout (A :: (i :: B) :: S)) :
    (p.linkFrom A.getLast? i).Layout ((A ++ i :: B) :: S) := by
  rcases List.eq_nil_or_concat A with rfl | ⟨A', a, rfl⟩
  · exact layout_nil_cons.mp h
  · rw [List.concat_eq_append] at h
    rw [List.concat_eq_append, List.getLast?_append, List.append_assoc]
    exact h.link

/-- Joining what is to stand behind a node, which may be nothing. -/
theorem Layout.linkTo (h : p.Layout ((A ++ [i]) :: B :: S)) :
    (p.linkTo i B.head?).Layout ((A ++ i :: B) :: S) := by
  cases B with
  | nil => exact layout_nil_cons.mp h.swap
  | cons b B => exact h.link

/-! ### Edits of the set of allocated nodes -/

/-- A strand depends on the nodes of its members only. -/
theorem Strand.of_node_eq {q : Pool n} (h : p.Strand L) (hL : ∀ k ∈ L, q.node k = p.node k) :
    q.Strand L :=
  h.congr (fun k hk => by rw [hL k hk]) (fun k hk => by rw [hL k hk])

/-- A node without neighbours is a strand by itself. -/
theorem strand_singleton (hp : (p.node i).prev = none) (hn : (p.node i).next = none) :
    p.Strand [i] :=
  ⟨List.IsChain.singleton i, fun k hk => by obtain rfl := Option.some.inj hk; exact hp,
    fun k hk => by obtain rfl := Option.some.inj hk; exact hn⟩

/-- Another strand in the place of the first, while the nodes of the others stay. Which nodes are
allocated is settled by what the members of the new strand and the nodes of no strand look like. -/
theorem Layout.exchange {q : Pool n} (h : p.Layout (A :: S)) (hnd : (B :: S).flatten.Nodup)
    (hkeep : ∀ k ∈ S.flatten, q.node k = p.node k) (hstrand : q.Strand B)
    (halloc : ∀ k ∈ B, (q.node k).isAllocated = true)
    (hunused : ∀ k, k ∉ (B :: S).flatten → (q.node k).IsUnused)
    (hhint : ∀ k : Fin n, k.val < q.hint → k ∈ (B :: S).flatten)
    (hfree : q.free.Shows (n - (B :: S).flatten.length))
    (hcount : q.allocated.Shows (B :: S).flatten.length)
    (hbreaks : q.breaks.Shows ((B :: S).map breaksIn).sum) : q.Layout (B :: S) where
  size_lt := h.size_lt
  nodup := hnd
  -- the new strand is given, and the others have kept their nodes
  strand := fun L hL => by
    rcases List.mem_cons.mp hL with rfl | hLS
    · exact hstrand
    · exact (h.strand L (List.mem_cons_of_mem A hLS)).of_node_eq fun k hk =>
        hkeep k (List.mem_flatten_of_mem hLS hk)
  allocated_iff := fun k => by
    constructor
    · -- an allocated node that is in none of the lists would be unused
      intro ha
      by_contra hk
      exact absurd (ha.symm.trans (hunused k hk).isAllocated) (by simp)
    · intro hk
      rcases List.mem_append.mp hk with hkB | hkS
      · exact halloc k hkB
      · rw [hkeep k hkS]
        exact (h.allocated_iff k).mpr (List.mem_append_right A hkS)
  unused := hunused
  below_hint := hhint
  free_shows := hfree
  allocated_shows := hcount
  breaks_shows := hbreaks

/-- **Claiming a node** adds a strand. The node has to be the first that is free, for the hint is
moved behind it. -/
theorem Layout.claim (h : p.Layout S) (hi : i ∉ S.flatten)
    (hfirst : ∀ k : Fin n, k.val < i.val → k ∈ S.flatten) (root : Fin n)
    (template : NodeStatus) : (p.claim i root template).Layout ([i] :: S) := by
  -- the claimed node stands by itself
  have hself : (p.claim i root template).node i
      = { Node.free with status := { template with allocated := true }, root := some root } := by
    rw [node_claim, if_pos rfl]
  have hother : ∀ k, k ≠ i → (p.claim i root template).node k = p.node k := by
    intro k hk
    rw [node_claim, if_neg hk]
  -- there is room for one more in the count, since there is one more node
  have hnd : ([i] :: S).flatten.Nodup := List.nodup_cons.mpr ⟨hi, h.nodup⟩
  have hlt : S.flatten.length + 1 ≤ n := by
    have hle := hnd.length_le_card
    rwa [Fintype.card_fin] at hle
  have hsize := h.size_lt
  refine (layout_nil_cons.mpr h).exchange hnd (fun k hk => ?keep) ?strand (fun k hk => ?allocated)
    (fun k hk => ?unused) (fun k hk => ?hint) ?free (h.allocated_shows.up (by omega)) ?breaks
  case keep => exact hother k fun he => hi (he ▸ hk)
  case strand => exact strand_singleton (by rw [hself]; rfl) (by rw [hself]; rfl)
  case allocated =>
    rw [List.mem_singleton.mp hk, hself]
    rfl
  case unused =>
    rw [hother k fun he => hk (he ▸ List.mem_cons_self)]
    exact h.unused k fun hm => hk (List.mem_cons_of_mem i hm)
  case hint =>
    -- the hint is right behind the node, and all before it are allocated
    rcases Nat.lt_succ_iff_lt_or_eq.mp hk with hlt | heq
    · exact List.mem_cons_of_mem i (hfirst k hlt)
    · exact (Fin.ext heq : k = i) ▸ List.mem_cons_self
  case free =>
    change p.free.down.Shows (n - (S.flatten.length + 1))
    apply Counter.Shows.down
    have hf := h.free_shows
    convert hf using 1
    omega
  case breaks =>
    change p.breaks.Shows (0 + (S.map breaksIn).sum)
    rw [Nat.zero_add]
    exact h.breaks_shows

/-- **Releasing a node** drops its strand. -/
theorem Layout.release (h : p.Layout ([i] :: S)) : (p.release i).Layout S := by
  have hiS : i ∉ S.flatten := h.not_mem_of_mem List.mem_cons_self
  have hother : ∀ k, k ≠ i → (p.release i).node k = p.node k := by
    intro k hk
    rw [node_release, if_neg hk]
  have hle := h.length_le
  rw [List.flatten_cons, List.singleton_append, List.length_cons] at hle
  have hsize := h.size_lt
  -- nothing is put in the place of the strand
  refine layout_nil_cons.mp (h.exchange (B := []) (List.nodup_cons.mp h.nodup).2
    (fun k hk => ?keep) (strand_nil _) (fun k hk => absurd hk List.not_mem_nil)
    (fun k hk => ?unused) (fun k hk => ?hint) ?free h.allocated_shows.down h.breaks_shows)
  case keep => exact hother k fun he => hiS (he ▸ hk)
  case unused =>
    by_cases hki : k = i
    · rw [hki, node_release, if_pos rfl]
      exact Node.isUnused_free
    · rw [hother k hki]
      exact h.unused k fun hm => hk ((List.mem_cons.mp hm).resolve_left hki)
  case hint =>
    -- the hint goes down to the node if that lies below it
    change k.val < min p.hint i.val at hk
    have hki : k ≠ i := by
      rintro rfl
      omega
    exact (List.mem_cons.mp (h.below_hint k (by omega))).resolve_left hki
  -- there is one free node more
  case free =>
    change p.free.up.Shows (n - S.flatten.length)
    have hf := h.free_shows
    rw [List.flatten_cons, List.singleton_append, List.length_cons] at hf
    convert hf.up (by omega) using 1
    omega

/-- **Putting another node in the place of a single one**: what the node held goes to a free place,
and the node is free afterwards. The counters do not notice. -/
theorem Layout.move (h : p.Layout ([i] :: S)) {target : Fin n}
    (ht : target ∉ ([i] :: S).flatten) :
    Layout { (p.setNode target (p.node i)).setNode i Node.free with hint := min p.hint i.val }
      ([target] :: S) := by
  have hiS : i ∉ S.flatten := h.not_mem_of_mem List.mem_cons_self
  have hti : target ≠ i := fun he => ht (he ▸ List.mem_cons_self)
  have htS : target ∉ S.flatten := fun hm => ht (List.mem_cons_of_mem i hm)
  set q : Pool n :=
    { (p.setNode target (p.node i)).setNode i Node.free with hint := min p.hint i.val } with hq
  -- the node lies in its new place, and a free one where it was
  have hnode : ∀ k, q.node k
      = if k = i then Node.free else if k = target then p.node i else p.node k := by
    intro k
    change ((p.setNode target (p.node i)).setNode i Node.free).node k = _
    rw [node_setNode, node_setNode]
  have htarget : q.node target = p.node i := by rw [hnode, if_neg hti, if_pos rfl]
  have hother : ∀ k, k ≠ i → k ≠ target → q.node k = p.node k := by
    intro k hki hkt
    rw [hnode, if_neg hki, if_neg hkt]
  have hi := h.strand [i] List.mem_cons_self
  refine h.exchange (List.nodup_cons.mpr ⟨htS, (List.nodup_cons.mp h.nodup).2⟩)
    (fun k hk => ?keep) ?strand (fun k hk => ?allocated) (fun k hk => ?unused) (fun k hk => ?hint)
    h.free_shows h.allocated_shows h.breaks_shows
  case keep => exact hother k (fun he => hiS (he ▸ hk)) fun he => htS (he ▸ hk)
  case strand =>
    -- the links move along, and there were none
    exact strand_singleton (by rw [htarget]; exact hi.first i rfl)
      (by rw [htarget]; exact hi.last i rfl)
  case allocated =>
    rw [List.mem_singleton.mp hk, htarget]
    exact h.isAllocated List.mem_cons_self
  case unused =>
    have hkt : k ≠ target := fun he => hk (he ▸ List.mem_cons_self)
    by_cases hki : k = i
    · rw [hki, hnode, if_pos rfl]
      exact Node.isUnused_free
    · rw [hother k hki hkt]
      refine h.unused k fun hm => hk (List.mem_cons_of_mem _ ?_)
      exact (List.mem_cons.mp hm).resolve_left hki
  case hint =>
    -- the place that becomes free is not below the hint any more
    change k.val < min p.hint i.val at hk
    have hki : k ≠ i := by
      rintro rfl
      omega
    exact List.mem_cons_of_mem _
      ((List.mem_cons.mp (h.below_hint k (by omega))).resolve_left hki)

/-- A change of a node that keeps its links and its allocation keeps the layout. -/
theorem Layout.modifyNode (h : p.Layout S) {f : Node n → Node n}
    (hn : (f (p.node i)).next = (p.node i).next) (hp : (f (p.node i)).prev = (p.node i).prev)
    (ha : (f (p.node i)).isAllocated = (p.node i).isAllocated)
    (hu : (p.node i).IsUnused → (f (p.node i)).IsUnused) :
    (p.modifyNode i f).Layout S := by
  -- whatever the change leaves alone in the node reads the same everywhere
  have hread : ∀ {α : Type} (read : Node n → α), read (f (p.node i)) = read (p.node i) →
      ∀ k, read ((p.modifyNode i f).node k) = read (p.node k) := by
    intro α read hf k
    rw [node_modifyNode]
    split_ifs with hki
    · rw [hf, hki]
    · rfl
  refine
    { size_lt := h.size_lt
      nodup := h.nodup
      strand := ?strand
      allocated_iff := ?allocated
      unused := ?unused
      below_hint := h.below_hint
      free_shows := h.free_shows
      allocated_shows := h.allocated_shows
      breaks_shows := h.breaks_shows }
  case strand =>
    -- a strand is a matter of links alone
    intro L hL
    exact (h.strand L hL).congr (fun k _ => hread Node.next hn k) (fun k _ => hread Node.prev hp k)
  case allocated =>
    intro k
    rw [hread Node.isAllocated ha k]
    exact h.allocated_iff k
  case unused =>
    intro k hk
    rw [node_modifyNode]
    split_ifs with hki
    · exact hu (h.unused i (hki ▸ hk))
    · exact h.unused k hk

end Layout

end Pool

end Machine6809
