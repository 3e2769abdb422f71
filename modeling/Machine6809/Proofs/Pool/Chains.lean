import Machine6809.Proofs.Pool.Layout
import Mathlib.Data.List.FinRange

/-!
# Pools made of chains

Between two operations the strands of a pool are chains: every member names the first as its root
(`Pool.Chained`). This is the invariant of the pool. It settles what everyone else reads off the
nodes: which positions are handles (`Chained.isHandle_iff`), what the walk along the links gives
(`Layout.chain_eq`), and what the root and the last node of a member are. With its break mark up to
date a member is settled altogether by its content and by its place (`Chained.node_eq_placed`).
-/

namespace Machine6809

/-- A list with a member has a first and a last one. -/
theorem exists_head_of_mem {α : Type*} {L : List α} {a : α} (h : a ∈ L) : ∃ b, L.head? = some b :=
  ⟨_, List.head?_eq_some_head (List.ne_nil_of_mem h)⟩

/-- A list with a member has a last one. -/
theorem exists_last_of_mem {α : Type*} {L : List α} {a : α} (h : a ∈ L) :
    ∃ b, L.getLast? = some b :=
  ⟨_, List.getLast?_eq_some_getLast (List.ne_nil_of_mem h)⟩

namespace Pool

variable {n : ℕ}

/-- The strands of the layout are chains: every member names the first as its root. -/
structure Chained (p : Pool n) (S : List (List (Fin n))) : Prop extends p.Layout S where
  root_eq : ∀ L ∈ S, ∀ i ∈ L, (p.node i).root = L.head?

theorem chained_empty (hn : n < 65536) : (empty : Pool n).Chained [] :=
  ⟨layout_empty hn, fun _ h => absurd h List.not_mem_nil⟩

section Read

variable {p : Pool n} {S T : List (List (Fin n))} {A B L : List (Fin n)} {h i : Fin n}

theorem Chained.perm (hc : p.Chained S) (hST : S.Perm T) : p.Chained T :=
  ⟨hc.toLayout.perm hST, fun L hL => hc.root_eq L (hST.mem_iff.mpr hL)⟩

theorem chained_nil_cons : p.Chained ([] :: S) ↔ p.Chained S := by
  constructor
  · intro hc
    exact ⟨layout_nil_cons.mp hc.toLayout, fun L hL => hc.root_eq L (List.mem_cons_of_mem _ hL)⟩
  · intro hc
    refine ⟨layout_nil_cons.mpr hc.toLayout, fun L hL => ?_⟩
    rcases List.mem_cons.mp hL with rfl | hL
    · exact fun _ hi => absurd hi List.not_mem_nil
    · exact hc.root_eq L hL

/-- A change to one node that concerns neither links nor roots. The status of a free node has to
stay as well. -/
theorem Chained.modifyNode (hc : p.Chained S) {f : Node n → Node n}
    (hroot : (f (p.node i)).root = (p.node i).root)
    (hprev : (f (p.node i)).prev = (p.node i).prev)
    (hnext : (f (p.node i)).next = (p.node i).next)
    (hstatus : (f (p.node i)).isAllocated = (p.node i).isAllocated)
    (hfree : (p.node i).isAllocated = false → (f (p.node i)).status = (p.node i).status) :
    (p.modifyNode i f).Chained S := by
  refine ⟨hc.toLayout.modifyNode hnext hprev hstatus fun hu => ?_, fun L hL k hk => ?_⟩
  · -- an unused node stays unused
    exact ⟨(hfree hu.isAllocated).trans hu.status, hroot.trans hu.root, hprev.trans hu.prev,
      hnext.trans hu.next⟩
  · rw [node_modifyNode]
    split_ifs with hki
    · rw [hroot, ← hki]
      exact hc.root_eq L hL k hk
    · exact hc.root_eq L hL k hk

/-- Any allocated node can be brought into view, with its chain listed first. -/
theorem Chained.exists_focus (hc : p.Chained S) (hi : (p.node i).isAllocated = true) :
    ∃ A B T, S.Perm ((A ++ i :: B) :: T) ∧ p.Chained ((A ++ i :: B) :: T) := by
  obtain ⟨A, B, T, hST, -⟩ := hc.toLayout.exists_focus hi
  exact ⟨A, B, T, hST, hc.perm hST⟩

/-- The root of a member is the first node of its chain. -/
theorem Chained.rootOf_eq (hc : p.Chained (L :: S)) (hi : i ∈ L) (hh : L.head? = some h) :
    p.rootOf i = h := by
  unfold rootOf
  rw [hc.root_eq L List.mem_cons_self i hi, hh]
  rfl

/-- The handles are the first nodes of the chains. -/
theorem Chained.isHandle_iff (hc : p.Chained S) :
    p.isHandle h = true ↔ ∃ L ∈ S, L.head? = some h := by
  unfold isHandle
  rw [Bool.and_eq_true, beq_iff_eq]
  constructor
  · -- an allocated node is in a chain, and its root is the head of that chain
    rintro ⟨ha, hr⟩
    obtain ⟨L, hL, hm⟩ := List.mem_flatten.mp ((hc.allocated_iff h).mp ha)
    exact ⟨L, hL, (hc.root_eq L hL h hm).symm.trans hr⟩
  · -- a head is a member, and its root is itself
    rintro ⟨L, hL, hh⟩
    have hm : h ∈ L := List.mem_of_mem_head? hh
    exact ⟨(hc.allocated_iff h).mpr (List.mem_flatten_of_mem hL hm),
      (hc.root_eq L hL h hm).trans hh⟩

/-! ### Walking -/

/-- Walking from a member to the end of its strand gives what is left of the strand. -/
theorem walk_eq : ∀ {B A : List (Fin n)} {fuel : ℕ}, p.Strand (A ++ B) → B.length ≤ fuel →
    p.walk fuel B.head? = B := by
  intro B
  induction B with
  | nil =>
    intro A fuel _ _
    cases fuel <;> rfl
  | cons b B ih =>
    intro A fuel hS hf
    cases fuel with
    | zero => exact absurd hf (Nat.not_succ_le_zero _)
    | succ fuel =>
      -- the next link leads to the head of the rest
      change b :: p.walk fuel (p.node b).next = b :: B
      rw [hS.next_eq, ih (A := A ++ [b]) (by rwa [List.append_assoc]) (Nat.le_of_succ_le_succ hf)]

/-- The chain from a member is what its strand holds from there on. -/
theorem Layout.chain_eq (hl : p.Layout ((A ++ i :: B) :: S)) : p.chain i = i :: B := by
  have hlen := hl.length_le
  rw [List.flatten_cons, List.length_append, List.length_append] at hlen
  unfold chain
  rw [if_pos (hl.isAllocated (by simp))]
  -- the fuel is enough, since no strand has more members than there are nodes
  exact walk_eq (hl.strand _ List.mem_cons_self) (by omega)

/-- Following the links from a member leads along what its strand holds from there on. -/
theorem follow?_eq : ∀ (k : ℕ) {A B : List (Fin n)} {i : Fin n}, p.Strand (A ++ i :: B) →
    p.follow? k i = (i :: B)[k]? := by
  intro k
  -- by the number of links; what has been passed is put behind A
  induction k with
  | zero => exact fun _ => rfl
  | succ k ih =>
    intro A B i hS
    rw [follow?, hS.next_eq]
    cases B with
    | nil => rfl
    | cons b B => exact ih (A := A ++ [i]) (by rwa [List.append_assoc])

/-- The chain of a handle holds the whole strand. -/
theorem Chained.chain_eq_of_mem (hc : p.Chained S) (hL : L ∈ S) (hh : L.head? = some h) :
    p.chain h = L := by
  obtain ⟨B, rfl⟩ : ∃ B, L = h :: B := List.head?_eq_some_iff.mp hh
  exact (hc.toLayout.perm (List.perm_cons_erase hL)).chain_eq (A := [])

/-- The walk to the end of a chain stops at its last member. -/
theorem Layout.lastOf_eq {l : Fin n} (hl : p.Layout ((A ++ i :: B) :: S))
    (hlast : (i :: B).getLast? = some l) : p.lastOf i = l := by
  unfold lastOf
  rw [hl.chain_eq, List.getLastD_eq_getLast?, hlast]
  rfl

/-- A handle together with the rest of its chain. -/
theorem Chained.exists_handle (hc : p.Chained S) (hh : p.isHandle h = true) :
    ∃ B T, S.Perm ((h :: B) :: T) ∧ p.Chained ((h :: B) :: T) := by
  obtain ⟨L, hL, hhd⟩ := hc.isHandle_iff.mp hh
  obtain ⟨B, rfl⟩ : ∃ B, L = h :: B := List.head?_eq_some_iff.mp hhd
  exact ⟨B, _, List.perm_cons_erase hL, hc.perm (List.perm_cons_erase hL)⟩

/-- Following the links from a handle leads along its chain. -/
theorem Chained.follow?_eq (hc : p.Chained S) (hh : p.isHandle h = true) (k : ℕ) :
    p.follow? k h = (p.chain h)[k]? := by
  obtain ⟨B, T, -, hT⟩ := hc.exists_handle hh
  rw [hT.toLayout.chain_eq (A := [])]
  exact Pool.follow?_eq (A := []) k (hT.strand _ List.mem_cons_self)

/-- What is in the chain of a handle is allocated. -/
theorem Chained.isAllocated_of_mem_chain (hc : p.Chained S) (hh : p.isHandle h = true)
    (hi : i ∈ p.chain h) : (p.node i).isAllocated = true := by
  obtain ⟨B, T, -, hT⟩ := hc.exists_handle hh
  rw [hT.toLayout.chain_eq (A := [])] at hi
  exact hT.isAllocated hi

/-- A chain that stays in the invariant stays under its handle. -/
theorem Chained.chain_kept {q : Pool n} (hp : p.Chained S) (hq : q.Chained T)
    (hh : p.isHandle h = true) (hsub : ∀ L ∈ S, L.head? = some h → L ∈ T) :
    q.isHandle h = true ∧ q.chain h = p.chain h := by
  obtain ⟨L, hL, hLh⟩ := hp.isHandle_iff.mp hh
  have hLT : L ∈ T := hsub L hL hLh
  refine ⟨hq.isHandle_iff.mpr ⟨L, hLT, hLh⟩, ?_⟩
  rw [hq.chain_eq_of_mem hLT hLh, hp.chain_eq_of_mem hL hLh]

/-- The chains of all handles hold what the strands hold. -/
theorem Chained.flatMap_chain_perm (hc : p.Chained S) :
    (p.handles.flatMap p.chain).Perm S.flatten := by
  -- each handle begins one of the chains
  have hchain : ∀ h ∈ p.handles, ∃ L ∈ S, L.head? = some h ∧ p.chain h = L := by
    intro h hh
    obtain ⟨L, hL, hhd⟩ := hc.isHandle_iff.mp (List.mem_filter.mp hh).2
    exact ⟨L, hL, hhd, hc.chain_eq_of_mem hL hhd⟩
  refine (List.perm_ext_iff_of_nodup (List.nodup_flatMap.mpr ⟨fun h hh => ?_, ?_⟩)
    hc.nodup).mpr fun i => ⟨fun hi => ?_, fun hi => ?_⟩
  · obtain ⟨L, hL, -, hLc⟩ := hchain h hh
    rw [hLc]
    exact (List.nodup_flatten.mp hc.nodup).1 L hL
  · -- a node in two chains would have two roots
    refine ((List.nodup_finRange n).filter _).imp_of_mem fun {g h} hg hh hgh i hig hih => hgh ?_
    obtain ⟨L, hL, hLg, hLc⟩ := hchain g hg
    obtain ⟨M, hM, hMh, hMc⟩ := hchain h hh
    have hrg := hc.root_eq L hL i (hLc ▸ hig)
    have hrh := hc.root_eq M hM i (hMc ▸ hih)
    exact Option.some.inj ((hLg.symm.trans (hrg.symm.trans hrh)).trans hMh)
  · obtain ⟨h, hh, hih⟩ := List.mem_flatMap.mp hi
    obtain ⟨L, hL, -, hLc⟩ := hchain h hh
    exact List.mem_flatten_of_mem hL (hLc ▸ hih)
  · -- a member is in the chain that its root begins
    obtain ⟨L, hL, hiL⟩ := List.mem_flatten.mp hi
    cases L with
    | nil => exact absurd hiL List.not_mem_nil
    | cons h B =>
      refine List.mem_flatMap.mpr ⟨h, List.mem_filter.mpr ⟨List.mem_finRange h, ?_⟩, ?_⟩
      · exact hc.isHandle_iff.mpr ⟨_, hL, rfl⟩
      · rwa [hc.chain_eq_of_mem hL rfl]

/-! ### Nodes in their places -/

/-- The node of a content that stands in its chain behind the nodes `A` and in front of the nodes
`B`. It carries a break mark if and only if a neighbour in the chain is not adjacent to it. -/
def placed (content : NodeStatus × Vector Byte payloadSize) (A : List (Fin n)) (i : Fin n)
    (B : List (Fin n)) : Node n :=
  { status := { content.1 with
      fragged := A.getLast?.any (fun a => !adjacent a i) || B.head?.any (fun b => !adjacent i b) }
    payload := content.2
    root := (A ++ [i]).head?
    prev := A.getLast?
    next := B.head? }

/-- **A marked member is settled by its content and its place.** -/
theorem Chained.node_eq_placed (hc : p.Chained ((A ++ i :: B) :: S)) (hmark : p.MarkedAt i) :
    p.node i = placed (p.node i).content A i B := by
  have hprev : (p.node i).prev = A.getLast? := hc.prev_eq
  have hnext : (p.node i).next = B.head? := hc.next_eq
  have hroot : (p.node i).root = (A ++ [i]).head? := by
    rw [hc.root_eq _ List.mem_cons_self i (by simp)]
    cases A <;> rfl
  have halloc : (p.node i).isAllocated = true := hc.isAllocated (by simp)
  -- the mark says whether the node is apart from a neighbour, and these are known now
  have hmark' : (p.node i).status.fragged
      = (A.getLast?.any (fun a => !adjacent a i) || B.head?.any fun b => !adjacent i b) := by
    rw [hmark, halloc, Node.isBroken, hprev, hnext, Bool.true_and]
  unfold placed
  rw [← hmark', ← hroot, ← hprev, ← hnext]
  rfl

end Read

end Pool

end Machine6809
