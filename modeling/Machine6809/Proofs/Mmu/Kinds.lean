import Machine6809.Proofs.Mmu.Carrying
import Machine6809.Proofs.Mmu.Refusals
import Machine6809.Proofs.Pool.Kinds

/-!
# Pages and read-only chains

The guest asks for a page or for a read-only chain once, when it allocates it. From then on the unit
looks at one node of the chain whenever it has to know: at the root to free a page, and at the node
itself and at the root to refuse a write. That this is enough is the invariant `Pool.Kinds`, which
every action keeps (`Action.kinds`).

Over a run there is more to say than that the invariant holds at either end. A node that is in a
chain all the time is of the same kind all the time (`inherited_carryAll`), so that a read-only
node is blank from beginning to end.
-/

namespace Machine6809

namespace Mmu

variable {n : ℕ}

/-- All nodes of the chain of handle `h` have the same page bit and the same read-only bit. The
command that frees pages looks at the root only; what comes of it is what one would expect from any
of the nodes. -/
structure OfOneKind (m : Mmu n) (h : Fin n) : Prop where
  paged : ∀ i ∈ m.pool.chain h, (m.pool.node i).status.paged = (m.pool.node h).status.paged
  readOnly : ∀ i ∈ m.pool.chain h,
    (m.pool.node i).status.readOnly = (m.pool.node h).status.readOnly
  pageFree_error : ∀ i ∈ m.pool.chain h,
    ({ m with arg1 := positionWord h }.run Command.pageFree.code).error
      = if (m.pool.node i).status.paged then if m.isMapped h then .mapping else .none else .page
  pageFree_pool : ∀ i ∈ m.pool.chain h,
    ({ m with arg1 := positionWord h }.run Command.pageFree.code).pool
      = if (m.pool.node i).status.paged && !m.isMapped h then (m.pool.releaseChain h).2
        else m.pool

section Kinds

variable {m : Mmu n} {a : Action n} {S : List (List (Fin n))} {h i j : Fin n}

/-! ### The invariant -/

/-- **Every action keeps the kinds.** -/
theorem Action.kinds (hc : m.pool.Chained S) (hk : m.pool.Kinds S) (ha : a.Allowed m) :
    ∃ S', (a.onPool m.pool).Chained S' ∧ (a.onPool m.pool).Kinds S' := by
  -- new members take the kind of the chain that they join
  cases a with
  | keep | select w shown => exact ⟨S, hc, hk⟩
  | allocate count template => exact hk.allocate hc count template
  | release root =>
    obtain ⟨B, T, hST, hT⟩ := hc.exists_handle ha.1
    exact ⟨_, hT.edits_releaseChain.after, (hk.perm hST).releaseChain hT⟩
  | remove i =>
    obtain ⟨A, B, T, hST, hT⟩ := hc.exists_focus ha.1
    exact ⟨_, hT.edits_remove.after, (hk.perm hST).remove hT⟩
  | insertBefore new i =>
    obtain ⟨A, B, T, hST, hT⟩ := hc.exists_focus ha.1
    exact ⟨_, (hT.edits_insertBefore ha.2).after, (hk.perm hST).insertBefore hT ha.2⟩
  | insertAfter new i =>
    obtain ⟨A, B, T, hST, hT⟩ := hc.exists_focus ha.1
    exact ⟨_, (hT.edits_insertAfter ha.2).after, (hk.perm hST).insertAfter hT ha.2⟩
  | setLock i locked =>
    -- the lock is none of the two bits
    refine ⟨S, ?_, ?_⟩ <;> dsimp only [onPool]
    · refine hc.modifyNode ?_ ?_ ?_ ?_ fun hfree => absurd (hfree.symm.trans ha) (by simp)
      all_goals rfl
    · exact hk.modifyNode rfl fun _ => rfl
  | write i offset value =>
    -- a read-only node is protected, so it is not this one
    have hro : (m.pool.node i).status.readOnly ≠ true := by
      intro hro
      have hopen : m.pool.isProtected i = false := ha
      simp [Pool.isProtected, NodeStatus.isProtected, hro] at hopen
    refine ⟨S, ?_, ?_⟩ <;> dsimp only [onPool]
    · refine hc.modifyNode ?_ ?_ ?_ ?_ fun _ => ?_
      all_goals rfl
    · exact hk.modifyNode rfl fun h => absurd h hro
  | defrag => exact ⟨_, hc.defrag.1.chained, hk.renames hc.defrag.1⟩
  | reset => exact ⟨[], Pool.chained_empty hc.size_lt, Pool.kinds_empty⟩

/-- **In every state of the unit the chains are of one kind each.** -/
theorem ReachableBy.kinds {kind : Request → Prop} (hn : n < 65536) (hm : m.ReachableBy kind) :
    ∃ S, m.pool.Chained S ∧ m.pool.Kinds S := by
  refine hm.invariant (I := fun m => ∃ S, m.pool.Chained S ∧ m.pool.Kinds S)
    (fun _ => ⟨[], Pool.chained_empty hn, Pool.kinds_empty⟩) ?_
  rintro m r ⟨S, hS, hk⟩ -
  rcases m.mayAct_serve r with hacts | hacts
  · rw [hacts.pool_eq]
    exact ⟨S, hS, hk⟩
  · rw [hacts.pool_eq]
    exact Action.kinds hS hk hacts.allowed

/-! ### Freeing pages -/

/-- Freeing a page by its handle is refused for chains that are no pages, and for pages that a
window shows. -/
theorem freePage_eq (hh : m.pool.handle? m.arg1 = some h) : m.freePage =
    if (m.pool.node h).status.paged then
      if m.isMapped h then (.mapping, m) else (.none, { m with pool := (m.pool.releaseChain h).2 })
    else (.page, m) := by
  unfold freePage freeChain free
  rw [hh]
  dsimp only
  cases (m.pool.node h).status.paged with
  | false => rfl
  | true => cases m.isMapped h <;> rfl

/-- Chains of one kind are so for each of their handles. -/
theorem ofOneKind_of_kinds (hn : n < 65536) (hc : m.pool.Chained S) (hk : m.pool.Kinds S)
    (hh : m.pool.isHandle h = true) : m.OfOneKind h := by
  obtain ⟨L, hL, hhead⟩ := hc.isHandle_iff.mp hh
  have hchain : m.pool.chain h = L := hc.chain_eq_of_mem hL hhead
  obtain ⟨s, hs⟩ := hk.kind L hL
  -- both bits of a member are those of the root
  have hsame : ∀ i ∈ m.pool.chain h,
      (m.pool.node i).status.inherited = (m.pool.node h).status.inherited := by
    intro i hi
    rw [hs i (hchain ▸ hi), hs h (List.mem_of_mem_head? hhead)]
  have hpaged : ∀ i ∈ m.pool.chain h,
      (m.pool.node i).status.paged = (m.pool.node h).status.paged :=
    fun i hi => congrArg (fun s => s.paged) (hsame i hi)
  -- PAGE_FREE goes by the bit of the root, which is that of every member
  have hrun : ({ m with arg1 := positionWord h }.run Command.pageFree.code)
      = conclude (({ m with arg1 := positionWord h }.announce .pageFree).freePage) := run_code _ _
  have hfree := freePage_eq (m := { m with arg1 := positionWord h }.announce .pageFree)
    (Pool.handle?_positionWord hn hh)
  change _ = if (m.pool.node h).status.paged then if m.isMapped h then _ else _ else _ at hfree
  refine ⟨hpaged, fun i hi => congrArg (fun s => s.readOnly) (hsame i hi), ?_, ?_⟩
  · intro i hi
    rw [hpaged i hi, hrun, conclude_error, hfree]
    split_ifs <;> rfl
  · intro i hi
    rw [hpaged i hi, hrun, conclude_pool, hfree]
    cases (m.pool.node h).status.paged with
    | false => rfl
    | true => cases m.isMapped h <;> rfl

/-! ### Over a run -/

/-- **A node is of one kind as long as it is in a chain.** -/
theorem inherited_carryAll : ∀ (rs : List Request) {m : Mmu n} {S : List (List (Fin n))}
    {i j : Fin n}, m.pool.Chained S → (m.pool.node i).isAllocated = true →
      m.carryAll rs i = some j →
        ((m.serveAll rs).pool.node j).status.inherited = (m.pool.node i).status.inherited := by
  intro rs
  -- request by request, each of which carries the bits along with the node
  induction rs with
  | nil =>
    intro m S i j _ _ hj
    obtain rfl : i = j := Option.some.inj hj
    rfl
  | cons r rs ih =>
    intro m S i j hc hi hj
    obtain ⟨k, hk, hj⟩ := carryAll_cons_eq_some_iff.mp hj
    obtain ⟨a, -, hacts, hplace⟩ := m.exists_acts_serve r
    obtain ⟨hstays, hik⟩ := stays_of_carry hplace hi hk
    obtain ⟨S', hS'⟩ := exists_chained_serve hc r
    have hstep := (hacts.keeps hc hstays).inherited
    rw [hik] at hstep
    have hk' : ((m.serve r).pool.node k).isAllocated = true := (carry_eq_some_iff.mp hk).2
    exact (ih hS' hk' hj).trans hstep

/-- **Pages and read-only chains.** In every state of the unit the nodes of each chain are of one
kind, and read-only nodes are blank. A node that is still in a chain after any requests is of the
kind that it was of, and if it is read-only, its payload is the same. -/
theorem chains_of_one_kind (hn : n < 65536) (hm : m.Reachable) :
    (∀ h, m.pool.isHandle h = true → m.OfOneKind h) ∧
    (∀ i, (m.pool.node i).status.readOnly = true → (m.pool.node i).payload = Node.blank) ∧
    ∀ (rs : List Request) (i j : Fin n), (m.pool.node i).isAllocated = true →
      m.carryAll rs i = some j →
        ((m.serveAll rs).pool.node j).status.paged = (m.pool.node i).status.paged ∧
        ((m.serveAll rs).pool.node j).status.readOnly = (m.pool.node i).status.readOnly ∧
        ((m.pool.node i).status.readOnly = true →
          ((m.serveAll rs).pool.node j).payload = (m.pool.node i).payload) := by
  obtain ⟨S, hS, hkinds⟩ := hm.kinds hn
  refine ⟨fun h hh => ofOneKind_of_kinds hn hS hkinds hh, hkinds.silent, fun rs i j hi hj => ?_⟩
  have hsame := inherited_carryAll rs hS hi hj
  have hro : ((m.serveAll rs).pool.node j).status.readOnly = (m.pool.node i).status.readOnly :=
    congrArg (fun s => s.readOnly) hsame
  -- the payload of a read-only node is zero, then as now
  refine ⟨congrArg (fun s => s.paged) hsame, hro, fun hi' => ?_⟩
  obtain ⟨S', -, hkinds'⟩ := (hm.serveAll rs).kinds hn
  calc ((m.serveAll rs).pool.node j).payload
      = Node.blank := hkinds'.silent j (hro.trans hi')
    _ = (m.pool.node i).payload := (hkinds.silent i hi').symm

/-- A read-only chain with a break, of nodes 1 and 3. -/
def readOnlyRequests : List Request :=
  [.setArg1 1, .command Command.alloc.code, .setArg1 1, .setArg2 4, .command Command.alloc.code,
    .setCursor 0, .command Command.insertAfter.code, .setCursor 1,
    .command Command.insertAfter.code, .setCursor 0, .command Command.popBack.code]

/-- The unit that has served them. -/
def readOnlyUnit : Mmu 6 := (initial six_pos).serveAll readOnlyRequests

/-- Its second node is moved, someone tries to write to it, and the chain gets another root. -/
def readOnlyAttack : List Request :=
  [.command Command.defrag.code, .writePayload 2 0 0x55, .setCursor 2,
    .command Command.pushFront.code]

/-- The node has gone from 3 to 2. It is still read-only, and nothing has been written. -/
theorem chains_of_one_kind_sample :
    readOnlyUnit.OfOneKind 1 ∧ readOnlyUnit.carryAll readOnlyAttack 3 = some 2 ∧
      ((readOnlyUnit.serveAll readOnlyAttack).pool.node 2).payload
        = (readOnlyUnit.pool.node 3).payload := by
  have hj : readOnlyUnit.carryAll readOnlyAttack 3 = some 2 := by decide +kernel
  obtain ⟨hkind, -, hrun⟩ := chains_of_one_kind (m := readOnlyUnit) (by decide)
    ⟨by decide, readOnlyRequests, fun _ _ => trivial, rfl⟩
  obtain ⟨-, -, hpayload⟩ := hrun readOnlyAttack 3 2 (by decide +kernel) hj
  exact ⟨hkind 1 (by decide +kernel), hj, hpayload (by decide +kernel)⟩

end Kinds

end Mmu

end Machine6809
