import Machine6809.Proofs.Pool.Allocation
import Machine6809.Proofs.Pool.Edits
import Machine6809.Proofs.Pool.Relocation

/-!
# Where the members of chains go

Splices, allocation, freeing and defragmentation are very different to do, but for a member of a
chain they come to the same: it goes to another place or stays where it is, it may be freed, and
otherwise it keeps its content and stays together with the other members of its chain. That is
`Pool.Carries`, for a function `σ` that says where a member goes.

Only two arguments are needed. Everything but defragmentation edits one strand and leaves the
others alone (`Pool.Edits`), and defragmentation renames all of them (`Pool.Renames`). Both carry
the members along, and neither makes a root of a member that was none, unless an edit takes the
head of a chain away (`Edits.isHandle_of_isHandle`).
-/

namespace Machine6809

namespace Pool

variable {n : ℕ}

/-- The node is in a chain before, and where `σ` takes it, it is in a chain after. -/
def Stays (σ : Fin n → Fin n) (p q : Pool n) (i : Fin n) : Prop :=
  (p.node i).isAllocated = true ∧ (q.node (σ i)).isAllocated = true

/-- From `p` to `q` members of chains go where `σ` says. Those that are not freed keep their
contents, and those of one chain stay together. -/
structure Carries (σ : Fin n → Fin n) (p q : Pool n) : Prop where
  content : ∀ i, Stays σ p q i → (q.node (σ i)).content = (p.node i).content
  together : ∀ i j, Stays σ p q i → Stays σ p q j → (p.node i).root = (p.node j).root →
    (q.node (σ i)).root = (q.node (σ j)).root

/-- From `p` to `q` the strand `L` has become `L'`, beside the strands in `T`. -/
structure Edits (p q : Pool n) (L L' : List (Fin n)) (T : List (List (Fin n))) : Prop where
  before : p.Chained (L :: T)
  after : q.Chained (L' :: T)
  beside : SameBeside p q L L'

/-- A change of one node that leaves its root alone leaves all roots alone. -/
theorem root_modifyNode {p : Pool n} {i : Fin n} {f : Node n → Node n}
    (hf : (f (p.node i)).root = (p.node i).root) (k : Fin n) :
    ((p.modifyNode i f).node k).root = (p.node k).root := by
  rw [node_modifyNode]
  split_ifs with hk
  · rw [hf, hk]
  · rfl

section Edits

variable {p q : Pool n} {S T : List (List (Fin n))} {A B L L' : List (Fin n)}
  {i j new root : Fin n}

/-! ### The operations as edits of one strand -/

/-- A new chain edits the empty list. -/
theorem Gains.edits (hc : p.Chained S) (hg : Gains p q S root B) :
    Edits p q [] (root :: B) S where
  before := chained_nil_cons.mpr hc
  after := hg.chained
  beside := ⟨fun _ hk => absurd hk List.not_mem_nil, fun k _ hk => hg.others k hk⟩

/-- An allocation adds a strand, or leaves the pool alone. -/
theorem Chained.edits_allocate (hc : p.Chained S) (count : ℕ) (template : NodeStatus) :
    ∃ L', Edits p (p.allocate count template).2 [] L' S := by
  have hnothing : Edits p p [] [] S :=
    ⟨chained_nil_cons.mpr hc, chained_nil_cons.mpr hc, fun _ _ _ => rfl, fun _ _ _ => rfl⟩
  have hcases := hc.allocate count template
  generalize p.allocate count template = x at hcases ⊢
  -- refused, nothing is edited; otherwise there is a new chain, complete or not
  cases hcases with
  | badLength => exact ⟨[], hnothing⟩
  | noneFree hfree => exact ⟨[], hnothing⟩
  | built gains length_eq => exact ⟨_, gains.edits hc⟩
  | exhausted gains length_lt hfree => exact ⟨_, gains.edits hc⟩

/-- Freeing edits a chain to the empty list. -/
theorem Chained.edits_releaseChain (hc : p.Chained ((i :: B) :: T)) :
    Edits p (p.releaseChain i).2 (i :: B) [] T := by
  obtain ⟨-, hafter, hnode⟩ := hc.releaseChain
  refine ⟨hc, chained_nil_cons.mpr hafter, fun _ _ hk => absurd hk List.not_mem_nil, ?_⟩
  intro k hk _
  rw [hnode, if_neg hk]

theorem Chained.edits_remove (hc : p.Chained ((A ++ i :: B) :: T)) :
    Edits p (p.remove i) (A ++ i :: B) (A ++ B) T := ⟨hc, hc.remove.1, hc.remove.2⟩

theorem Chained.edits_insertBefore (hc : p.Chained ((A ++ i :: B) :: T))
    (hnew : p.firstFree = some new) :
    Edits p (p.insertBefore new i) (A ++ i :: B) (A ++ new :: i :: B) T :=
  ⟨hc, (hc.insertBefore hnew).1, (hc.insertBefore hnew).2⟩

theorem Chained.edits_insertAfter (hc : p.Chained ((A ++ i :: B) :: T))
    (hnew : p.firstFree = some new) :
    Edits p (p.insertAfter new i) (A ++ i :: B) (A ++ i :: new :: B) T :=
  ⟨hc, (hc.insertAfter hnew).1, (hc.insertAfter hnew).2⟩

/-! ### What an edit does to the members -/

/-- A member of the edited strand that stays is a member afterwards. -/
theorem Edits.mem_after (he : Edits p q L L' T) (hi : Stays id p q i) (hL : i ∈ L) : i ∈ L' := by
  have hmem : i ∈ (L' :: T).flatten := (he.after.allocated_iff i).mp hi.2
  rw [List.flatten_cons, List.mem_append] at hmem
  exact hmem.resolve_right (he.before.not_mem_of_mem hL)

/-- A member of another strand is on neither side of the edit. -/
theorem Edits.not_mem_after (he : Edits p q L L' T) (hi : Stays id p q i) (hL : i ∉ L) :
    i ∉ L' := by
  intro hL'
  have hmem : i ∈ (L :: T).flatten := (he.before.allocated_iff i).mp hi.1
  rw [List.flatten_cons, List.mem_append] at hmem
  exact he.after.not_mem_of_mem hL' (hmem.resolve_left hL)

/-- Whoever has the root of a member is a member of the same strand. -/
theorem Chained.mem_of_root_eq (hc : p.Chained (L :: T)) (hi : i ∈ L)
    (hj : (p.node j).isAllocated = true) (hij : (p.node i).root = (p.node j).root) : j ∈ L := by
  obtain ⟨M, hM, hjM⟩ := List.mem_flatten.mp ((hc.allocated_iff j).mp hj)
  obtain ⟨h, hh⟩ := exists_head_of_mem hi
  have hhM : M.head? = some h := by
    rw [← hc.root_eq M hM j hjM, ← hij, hc.root_eq L List.mem_cons_self i hi, hh]
  rcases List.mem_cons.mp hM with rfl | hMT
  · exact hjM
  · -- the root itself would be in two strands
    exact absurd (List.mem_flatten_of_mem hMT (List.mem_of_mem_head? hhM))
      (hc.not_mem_of_mem (List.mem_of_mem_head? hh))

/-- **An edit leaves the members where they are.** -/
theorem Edits.carries (he : Edits p q L L' T) : Carries id p q := by
  refine ⟨fun i hi => ?_, fun i j hi hj hij => ?_⟩
  · by_cases hL : i ∈ L
    · exact he.beside.content i hL (he.mem_after hi hL)
    · exact congrArg Node.content (he.beside.others i hL (he.not_mem_after hi hL))
  · by_cases hL : i ∈ L
    · -- both have the head of the new list as their root
      have hjL : j ∈ L := he.before.mem_of_root_eq hL hj.1 hij
      calc (q.node i).root
          = L'.head? := he.after.root_eq L' List.mem_cons_self i (he.mem_after hi hL)
        _ = (q.node j).root :=
          (he.after.root_eq L' List.mem_cons_self j (he.mem_after hj hjL)).symm
    · have hjL : j ∉ L := fun hjL => hL (he.before.mem_of_root_eq hjL hi.1 hij.symm)
      calc (q.node i).root
          = (p.node i).root := by rw [he.beside.others i hL (he.not_mem_after hi hL)]
        _ = (p.node j).root := hij
        _ = (q.node j).root := by rw [he.beside.others j hjL (he.not_mem_after hj hjL)]

/-- A member is the root of its chain afterwards only if it was before, as long as no other member
comes to be the head of the list. -/
theorem Edits.isHandle_of_isHandle (he : Edits p q L L' T)
    (hhead : ∀ k ∈ L, L'.head? = some k → L.head? = some k)
    (hi : (p.node i).isAllocated = true) (hq : q.isHandle i = true) : p.isHandle i = true := by
  obtain ⟨M, hM, hMi⟩ := he.after.isHandle_iff.mp hq
  rw [he.before.isHandle_iff]
  rcases List.mem_cons.mp hM with rfl | hMT
  · -- the head of the edited chain: it was there before, and it was the head
    have hstays : Stays id p q i := ⟨hi, he.after.isAllocated (List.mem_of_mem_head? hMi)⟩
    have hL : i ∈ L := by
      by_contra hL
      exact he.not_mem_after hstays hL (List.mem_of_mem_head? hMi)
    exact ⟨L, List.mem_cons_self, hhead i hL hMi⟩
  · -- the head of another chain, which is as it was
    exact ⟨M, List.mem_cons_of_mem L hMT, hMi⟩

end Edits

/-! ### Renamings -/

section Renames

variable {σ : Fin n → Fin n} {p q : Pool n} {S : List (List (Fin n))} {i : Fin n}

/-- **A renaming takes the members along.** None of them is freed. -/
theorem Renames.carries (hr : Renames σ p q S) (hp : p.Chained S) : Carries σ p q := by
  -- the root of a member is that of its chain, which has stayed
  have hroot : ∀ k, (p.node k).isAllocated = true → (q.node (σ k)).root = (p.node k).root := by
    intro k hk
    obtain ⟨L, hL, hkL⟩ := List.mem_flatten.mp ((hp.allocated_iff k).mp hk)
    obtain ⟨h, hh⟩ := exists_head_of_mem hkL
    calc (q.node (σ k)).root
        = (L.map σ).head? :=
          hr.chained.root_eq _ (List.mem_map_of_mem hL) _ (List.mem_map_of_mem hkL)
      _ = some h := by rw [List.head?_map, hh, Option.map_some, hr.handle L hL h hh]
      _ = (p.node k).root := by rw [hp.root_eq L hL k hkL, hh]
  refine ⟨fun i hi => hr.content_eq hp hi.1, fun i j hi hj hij => ?_⟩
  rw [hroot i hi.1, hroot j hj.1, hij]

/-- Allocated nodes are allocated under their new names. -/
theorem Renames.isAllocated (hr : Renames σ p q S) (hp : p.Chained S)
    (hi : (p.node i).isAllocated = true) : (q.node (σ i)).isAllocated = true := by
  rw [Node.isAllocated_congr (hr.content_eq hp hi)]
  exact hi

/-- Different members go to different places, so only a root goes to the place of a root. -/
theorem Renames.isHandle_of_isHandle (hr : Renames σ p q S) (hp : p.Chained S)
    (hi : (p.node i).isAllocated = true) (hq : q.isHandle (σ i) = true) :
    p.isHandle i = true := by
  have hnodup : (S.flatten.map σ).Nodup := by
    rw [List.map_flatten]
    exact hr.chained.nodup
  have hσi : p.isHandle (σ i) = true := (hr.isHandle_iff hp).mp hq
  obtain ⟨L, hL, hhead⟩ := hp.isHandle_iff.mp hσi
  have hfix : σ (σ i) = σ i := hr.handle L hL _ hhead
  have hmem : σ i ∈ S.flatten := List.mem_flatten_of_mem hL (List.mem_of_mem_head? hhead)
  -- its new name and the handle both go to the handle, and no two members go to one place
  have hself : σ i = i :=
    List.inj_on_of_nodup_map hnodup hmem ((hp.allocated_iff i).mp hi) hfix
  rwa [hself] at hσi

end Renames

end Pool

end Machine6809
