import Machine6809.Proofs.Mmu.Windows
import Machine6809.Proofs.Pool.Blank

/-!
# Nothing leaks

Whatever the guest has done, it can give everything back: once the windows show nothing, it frees
one chain after the other, in any order, and what remains is the empty pool. No node is left over,
because every allocated node is in the chain of some handle, and freeing one chain does not disturb
the others (`Clearing.free`).

That the nodes are all clear in the end, with their payloads, also takes that no one has written to
a free node. The guest cannot do that: the payload under the cursor is written to only if its node
is allocated, and a window leads to members of chains only (`ReachableBy.blank`).
-/

namespace Machine6809

namespace Mmu

variable {n : ℕ}

/-! ### Free nodes of the unit are blank -/

section Blank

variable {m : Mmu n} {a : Action n} {S : List (List (Fin n))} {i : Fin n}

/-- What a window shows is allocated. -/
theorem isAllocated_of_nodeBehind? (hc : m.pool.Chained S) (hanchored : m.Anchored) {w : ℕ}
    {offset : Word} (hi : (m.window? w).bind (m.nodeBehind? · offset) = some i) :
    (m.pool.node i).isAllocated = true := by
  obtain ⟨h, hw, hi⟩ := Option.bind_eq_some_iff.mp hi
  have hh := hanchored w h hw
  rw [nodeBehind?_eq hc hh] at hi
  exact hc.isAllocated_of_mem_chain hh (List.mem_of_getElem? hi)

/-- The guest writes to allocated nodes only. -/
theorem isAllocated_of_write (hc : m.pool.Chained S) (hanchored : m.Anchored) {r : Request}
    (hr : r.Guarded) {offset : Fin payloadSize} {value : Byte}
    (hw : m.requestAction r = .write i offset value) : (m.pool.node i).isAllocated = true := by
  have hasked := m.asked_requestAction r
  rw [hw] at hasked
  generalize hx : Action.write i offset value = x at hasked
  cases hasked with
  | @command command hcommand =>
    have hfor := m.commandAction_isFor command
    rw [← hx] at hfor
    exact hfor.elim
  | write h =>
    obtain ⟨rfl, -, -⟩ := Action.write.inj hx
    rcases h hr with ⟨ha, rfl⟩ | ⟨w, o, hi⟩
    · -- at the cursor, where the register block has looked first
      exact ha
    · -- or in a window
      exact isAllocated_of_nodeBehind? hc hanchored hi
  | _ => exact absurd hx (by simp)

/-- An allowed action leaves free nodes blank, if what it writes to is allocated. -/
theorem Action.blank (hb : m.pool.Blank) (hc : m.pool.Chained S) (ha : a.Allowed m)
    (hwrite : ∀ i offset value, a = .write i offset value →
      (m.pool.node i).isAllocated = true) : (a.onPool m.pool).Blank := by
  -- by the action; only a write to a free node could leave something there
  cases a with
  | keep | select w shown => exact hb
  | allocate count template => exact hb.allocate hc count template
  | release root => exact hb.releaseChain hc ha.1
  | remove i => exact hb.remove hc ha.1
  | insertBefore new i => exact hb.insertBefore hc ha.1 ha.2
  | insertAfter new i => exact hb.insertAfter hc ha.1 ha.2
  | setLock i locked => exact hb.modifyNode ha rfl
  | write i offset value => exact hb.modifyNode (hwrite i offset value rfl) rfl
  | defrag => exact hb.defrag
  | reset => exact Pool.blank_empty

/-- **Free nodes are blank** as long as no one writes by position. -/
theorem ReachableBy.blank (hn : n < 65536) (hm : m.ReachableBy Request.Guarded) :
    m.pool.Blank := by
  -- that windows show handles is needed to know that writes through them are allowed
  have h : m.pool.Sound False ∧ m.Anchored ∧ m.pool.Blank := by
    refine hm.invariant (I := fun m => m.pool.Sound False ∧ m.Anchored ∧ m.pool.Blank)
      (fun nonempty => ⟨Pool.sound_empty hn, anchored_initial nonempty, Pool.blank_empty⟩) ?_
    rintro m r ⟨hsound, hanchored, hblank⟩ hr
    obtain ⟨S, hS⟩ := hsound.chained
    refine ⟨sound_serve hsound False.elim, anchored_serve hS hanchored r, ?_⟩
    rcases m.mayAct_serve r with ha | ha
    · rw [ha.pool_eq]
      exact hblank
    · rw [ha.pool_eq]
      exact Action.blank hblank hS ha.allowed fun i offset value hw =>
        isAllocated_of_write hS hanchored hr hw
  exact h.2.2

end Blank

/-! ### Giving everything back -/

/-- The windows are told to show nothing. -/
def unmapRequests : List Request := [.select 0 none, .select 1 none]

/-- The chain with a handle is freed by the command for that. -/
def freeRequests (h : Fin n) : List Request :=
  [.setArg1 (positionWord h), .command Command.free.code]

/-- The chain of handle `h` can be freed and has `k` nodes, whether one asks the unit directly or by
the command. -/
structure Frees (m : Mmu n) (h : Fin n) (k : ℕ) : Prop where
  returns : (m.free (positionWord h)).1 = .ok k
  succeeds : (m.serveAll (freeRequests h)).error = .none

/-- The pool is as if it had never been used. -/
structure Emptied (p : Pool n) : Prop where
  pool_eq : p = Pool.empty
  node_eq : ∀ i, p.node i = Node.free
  freeCount_eq : p.freeCount = n
  allocatedCount_eq : p.allocatedCount = 0
  breakCount_eq : p.breakCount = 0

/-- On the way from `m` the chains with handles in `rest` are still to be freed. They are what they
were, and there are no others. -/
structure Clearing (m v : Mmu n) (rest : List (Fin n)) : Prop where
  chained : ∃ S, v.pool.Chained S
  blank : v.pool.Blank
  unmapped : ∀ h, v.isMapped h = false
  nodup : rest.Nodup
  mem_iff : ∀ h, h ∈ rest ↔ v.pool.isHandle h = true
  chain_eq : ∀ h ∈ rest, v.pool.chain h = m.pool.chain h

section Freeing

variable {m v v' : Mmu n} {h : Fin n} {rest hs : List (Fin n)}

/-- A pool that has just been made is empty. -/
theorem emptied_empty (hn : n < 65536) : Emptied (Pool.empty : Pool n) where
  pool_eq := rfl
  node_eq := Pool.node_empty
  freeCount_eq := (Counter.shows_start hn).1
  allocatedCount_eq := rfl
  breakCount_eq := rfl

/-- What is left to clear depends on the pool and the windows. -/
theorem Clearing.congr (hv : Clearing m v rest) (hp : v'.pool = v.pool)
    (hw : v'.windows = v.windows) : Clearing m v' rest where
  chained := by rw [hp]; exact hv.chained
  blank := by rw [hp]; exact hv.blank
  unmapped := fun h => by
    have hfree := hv.unmapped h
    unfold isMapped at hfree ⊢
    rwa [hw]
  nodup := hv.nodup
  mem_iff := by rw [hp]; exact hv.mem_iff
  chain_eq := by rw [hp]; exact hv.chain_eq

/-- **Freeing one chain** counts its nodes and leaves the others. -/
theorem Clearing.free (hn : n < 65536) (hv : Clearing m v (h :: rest)) :
    v.free (positionWord h)
        = (.ok (m.pool.chain h).length, { v with pool := (v.pool.releaseChain h).2 }) ∧
      Clearing m { v with pool := (v.pool.releaseChain h).2 } rest := by
  obtain ⟨S, hS⟩ := hv.chained
  have hh : v.pool.isHandle h = true := (hv.mem_iff h).mp List.mem_cons_self
  obtain ⟨B, T, -, hT⟩ := hS.exists_handle hh
  obtain ⟨hcount, hchained, -⟩ := hT.releaseChain
  have hlength : (m.pool.chain h).length = B.length + 1 := by
    rw [← hv.chain_eq h List.mem_cons_self, hT.toLayout.chain_eq (A := []), List.length_cons]
  obtain ⟨hnotin, hnodup⟩ := List.nodup_cons.mp hv.nodup
  -- the handles that are left are those of the other chains
  have hmem : ∀ g, g ∈ rest ↔ g ≠ h ∧ v.pool.isHandle g = true := by
    intro g
    rw [← hv.mem_iff, List.mem_cons]
    constructor
    · intro hg
      exact ⟨fun he => hnotin (he ▸ hg), .inr hg⟩
    · rintro ⟨hgh, hg⟩
      exact hg.resolve_left hgh
  refine ⟨?_, ?_⟩
  · unfold Mmu.free
    rw [Pool.handle?_positionWord hn hh]
    dsimp only
    rw [hv.unmapped h, onPool_eq, hcount, hlength]
    rfl
  · -- the other chains keep their handles and their nodes
    refine
      { chained := ⟨T, hchained⟩
        blank := hv.blank.releaseChain hS hh
        unmapped := hv.unmapped
        nodup := hnodup
        mem_iff := fun g => ?_
        chain_eq := fun g hg => ?_ }
    · rw [hmem]
      exact hT.isHandle_releaseChain_iff.symm
    · obtain ⟨hgh, hgv⟩ := (hmem g).mp hg
      rw [← hv.chain_eq g (List.mem_cons_of_mem h hg)]
      exact (hT.chain_releaseChain hgv hgh).2

/-- Freeing one chain by the command. -/
theorem Clearing.frees (hn : n < 65536) (hv : Clearing m v (h :: rest)) :
    Frees v h (m.pool.chain h).length ∧ Clearing m (v.serveAll (freeRequests h)) rest := by
  have hreturns : (v.free (positionWord h)).1 = .ok (m.pool.chain h).length := by
    rw [(hv.free hn).1]
  -- the command acts on a unit with the same pool and windows
  have hasked : Clearing m ({ v with arg1 := positionWord h }.announce .free) (h :: rest) :=
    hv.congr rfl rfl
  obtain ⟨hfree, hcleared⟩ := hasked.free hn
  have harg : ({ v with arg1 := positionWord h }.announce .free).arg1 = positionWord h := rfl
  have hserve : v.serveAll (freeRequests h)
      = conclude (({ v with arg1 := positionWord h }.announce .free).freeChain) := rfl
  unfold freeChain at hserve
  rw [harg, hfree] at hserve
  refine ⟨⟨hreturns, ?_⟩, ?_⟩
  · rw [hserve]
    rfl
  · rw [hserve]
    exact hcleared.congr rfl rfl

/-- Freeing some chains leaves the others to be freed. -/
theorem Clearing.freeAll (hn : n < 65536) : ∀ {A : List (Fin n)} {v : Mmu n},
    Clearing m v (A ++ rest) → Clearing m (v.serveAll (A.flatMap freeRequests)) rest := by
  intro A
  -- handle by handle: each chain is freed and leaves the others to be freed
  induction A with
  | nil => exact fun hv => hv
  | cons h A ih =>
    intro v hv
    have hstep := (hv.frees hn).2
    have happ : v.serveAll ((h :: A).flatMap freeRequests)
        = (v.serveAll (freeRequests h)).serveAll (A.flatMap freeRequests) := by
      rw [List.flatMap_cons]
      exact List.foldl_append
    rw [happ]
    exact ih hstep

/-- When no chain is left the pool is empty. -/
theorem Clearing.emptied (hn : n < 65536) (hv : Clearing m v []) : Emptied v.pool := by
  obtain ⟨S, hS⟩ := hv.chained
  -- no handle, hence no chain, hence no allocated node
  have hhandles : v.pool.handles = [] := by
    rw [List.eq_nil_iff_forall_not_mem]
    intro h hh
    exact absurd ((hv.mem_iff h).mpr (List.mem_filter.mp hh).2) List.not_mem_nil
  have hflatten : S.flatten = [] := by
    have hperm := hS.flatMap_chain_perm
    rw [hhandles] at hperm
    exact hperm.symm.eq_nil
  rw [hS.toLayout.eq_empty hv.blank hflatten (Fin.pos v.cursor)]
  exact emptied_empty hn

/-- After both windows are closed no chain is mapped. -/
theorem isMapped_unmapRequests (m : Mmu n) (h : Fin n) :
    (m.serveAll unmapRequests).isMapped h = false := by
  have hwindows : (m.serveAll unmapRequests).windows = (m.windows.set 0 none).set 1 none := rfl
  unfold isMapped
  rw [hwindows, ← Bool.not_eq_true, Vector.any_eq_true]
  -- a window is one of the two
  rintro ⟨i, hi, hshown⟩
  rw [Vector.getElem_set, Vector.getElem_set] at hshown
  have hcases : i = 0 ∨ i = 1 := by
    unfold windowCount at hi
    omega
  rcases hcases with rfl | rfl <;> simp at hshown

/-- Then the handles of the pool, in any order, are what is to be cleared. -/
theorem clearing_unmapRequests (hn : n < 65536) (hm : m.ReachableBy Request.Guarded)
    (hhs : hs.Perm m.pool.handles) : Clearing m (m.serveAll unmapRequests) hs := by
  -- closing the windows does not touch the pool
  obtain ⟨S, hS⟩ := hm.exists_chained hn
  have hblank := hm.blank hn
  exact
    { chained := ⟨S, hS⟩
      blank := hblank
      unmapped := m.isMapped_unmapRequests
      nodup := hhs.nodup_iff.mpr ((List.nodup_finRange n).filter _)
      mem_iff := fun h => by
        rw [hhs.mem_iff]
        unfold Pool.handles
        rw [List.mem_filter]
        exact and_iff_right (List.mem_finRange h)
      chain_eq := fun _ _ => rfl }

/-- **Nothing leaks.** After the windows have been told to show nothing, the chains of all handles
can be freed one after the other in any order. Each time the unit frees as many nodes as the chain
had, and in the end the pool is empty. -/
theorem freeing_empties_pool (hn : n < 65536) (hm : m.ReachableBy Request.Guarded)
    (hhs : hs.Perm m.pool.handles) :
    (∀ A h B, hs = A ++ h :: B →
      Frees ((m.serveAll unmapRequests).serveAll (A.flatMap freeRequests)) h
        (m.pool.chain h).length) ∧
    Emptied ((m.serveAll unmapRequests).serveAll (hs.flatMap freeRequests)).pool := by
  have hclearing := clearing_unmapRequests hn hm hhs
  refine ⟨fun A h B he => ?_, ?_⟩
  · rw [he] at hclearing
    exact ((hclearing.freeAll hn).frees hn).1
  · rw [← List.append_nil hs] at hclearing
    exact (hclearing.freeAll hn).emptied hn

/-- The small unit with a second chain, of two nodes, and a window on the first. -/
def pairRequests : List Request :=
  sampleRequests ++ [.setArg1 2, .command Command.alloc.code, .select 0 (some 0)]

/-- The small unit with these two chains. -/
def pairUnit : Mmu 6 := (initial six_pos).serveAll pairRequests

/-- Its chains are freed beginning with the second. -/
theorem freeing_empties_pool_sample :
    Frees (pairUnit.serveAll unmapRequests) 1 2 ∧
      Emptied ((pairUnit.serveAll unmapRequests).serveAll
        (([1, 0] : List (Fin 6)).flatMap freeRequests)).pool := by
  have hhandles : ([1, 0] : List (Fin 6)).Perm pairUnit.pool.handles := by decide +kernel
  have hlength : (pairUnit.pool.chain 1).length = 2 := by decide +kernel
  obtain ⟨hfrees, hemptied⟩ := freeing_empties_pool (m := pairUnit) (by decide)
    ⟨by decide, pairRequests, by decide, rfl⟩ hhandles
  exact ⟨hlength ▸ hfrees [] 1 [0] rfl, hemptied⟩

end Freeing

end Mmu

end Machine6809
