import Machine6809.Proofs.Mmu.Freeing
import Machine6809.Proofs.Mmu.Refusals
import Machine6809.Proofs.Pool.Restoring

/-!
# Commands that take each other back

What has been allocated can be freed, and what has been put into a chain can be taken out of it. The
way back is not the way there: an insertion at the root gives the chain a new name, and the deletion
gives it a new one again; a break that is closed by an insertion is opened by another kind of edit
than the one that made it. Still the second command leaves no trace of the first in the nodes, in
the counters and in the windows (`Mmu.commands_undone`).

The nodes and the counters follow from lists and contents (`Pool.Restores`). The windows follow the
names of chains there and back. They cannot be led astray on the way, since the new node has been
free and no window shows a free node.
-/

namespace Machine6809

namespace Mmu

variable {n : ℕ}

/-- The command that takes another one back. -/
def inverse : Command → Option Command
  | .alloc | .pageAlloc => some .free
  | .insertBefore | .insertAfter => some .deleteNode
  | .pushFront => some .popFront
  | .pushBack => some .popBack
  | _ => none

/-- The last command has succeeded, and `m'` has the nodes, the counts and the windows of `m`. -/
structure Undone (m m' : Mmu n) : Prop where
  error_eq : m'.error = .none
  pool : Pool.Restores m.pool m'.pool
  windows_eq : m'.windows = m.windows

section Undoing

variable {m m' m'' : Mmu n} {S T T' : List (List (Fin n))} {L : List (Fin n)} {g h i new : Fin n}
  {command back : Command} {place beside : ℕ}

/-! ### Windows there and back -/

/-- A chain that is shown is shown by one of the windows. -/
theorem exists_window?_of_mem (hw : some h ∈ m.windows) : ∃ w, m.window? w = some h := by
  obtain ⟨w, hlt, he⟩ := Vector.getElem_of_mem hw
  refine ⟨w, ?_⟩
  unfold window?
  rw [Vector.getElem?_eq_getElem hlt, he]
  rfl

/-- No window shows a chain that is not there. -/
theorem Anchored.not_mem_windows (hm : m.Anchored) (hh : m.pool.isHandle h ≠ true) :
    some h ∉ m.windows := by
  intro hw
  obtain ⟨w, hw⟩ := exists_window?_of_mem hw
  exact hh (hm w h hw)

/-- Windows that have followed a chain to its new name and back show what they did. The new name
must not have been in use. -/
theorem windows_map_back {v : Vector (Option (Fin n)) windowCount} (hv : some g ∈ v → g = h) :
    (v.map fun w => if w = some h then some g else w).map
      (fun w => if w = some g then some h else w) = v := by
  rw [Vector.map_map]
  have hid : v.map ((fun w => if w = some g then some h else w) ∘
      fun w => if w = some h then some g else w) = v.map id :=
    Vector.map_congr_left fun w hw => by
      dsimp only [Function.comp_apply, id]
      -- a window that has followed the head comes back, and no other window goes there with it
      by_cases hwh : w = some h
      · rw [if_pos hwh, if_pos rfl, hwh]
      · rw [if_neg hwh]
        split_ifs with hwg
        · rw [hwg, hv (hwg ▸ hw)]
        · rfl
  rw [hid, Vector.map_id]

/-! ### Allocating and freeing -/

/-- An allocation that builds a chain, complete or not, puts its handle into the first argument
register. -/
theorem gains_of_allocateChain (hc : m.pool.Chained S) {count : ℕ} {template : NodeStatus}
    (he : (m.allocateChain count template).1 = .none ∨
      (m.allocateChain count template).1 = .alloc) :
    ∃ root B, Pool.Gains m.pool (m.allocateChain count template).2.pool S root B ∧
      (m.allocateChain count template).2.arg1 = positionWord root ∧
      (m.allocateChain count template).2.windows = m.windows := by
  have hcases := hc.allocate count template
  unfold allocateChain allocate at he ⊢
  rw [onPool_eq] at he ⊢
  dsimp only at he ⊢
  generalize m.pool.allocate count template = x at hcases he ⊢
  cases hcases with
  -- refused: neither of the two outcomes
  | badLength => exact absurd he nofun
  | noneFree hfree => exact absurd he nofun
  | built gains length_eq => exact ⟨_, _, gains, rfl, rfl⟩
  | exhausted gains length_lt hfree => exact ⟨_, _, gains, rfl, rfl⟩

/-- Freeing the chain in the first argument register by the command. -/
theorem run_free (hn : n < 65536) (hh : m.pool.isHandle h = true) (harg : m.arg1 = positionWord h)
    (hmap : m.isMapped h = false) :
    m.run Command.free.code = { m.announce .free with
      pool := (m.pool.releaseChain h).2, command := 0, error := .none } := by
  -- the handle is found by its word, and its chain is not mapped
  have hfree : (m.announce .free).free (positionWord h) = (.ok (m.pool.releaseChain h).1,
      { m.announce .free with pool := (m.pool.releaseChain h).2 }) := by
    have hmap' : (m.announce .free).isMapped h = false := hmap
    have hhandle : (m.announce .free).pool.handle? (positionWord h) = some h :=
      Pool.handle?_positionWord hn hh
    unfold Mmu.free
    rw [hhandle]
    dsimp only
    rw [hmap']
    rfl
  have harg' : (m.announce .free).arg1 = positionWord h := harg
  rw [run_code]
  change conclude (m.announce .free).freeChain = _
  unfold freeChain
  rw [harg', hfree]
  rfl

/-- **Freeing takes an allocation back.** -/
theorem undone_of_gains {B : List (Fin n)} (hn : n < 65536) (hc : m.pool.Chained S)
    (hb : m.pool.Blank) (hanchored : m.Anchored) (hg : Pool.Gains m.pool m'.pool S h B)
    (harg : m'.arg1 = positionWord h) (hwin : m'.windows = m.windows) :
    Undone m (m'.run Command.free.code) := by
  have hh : m'.pool.isHandle h = true :=
    hg.chained.isHandle_iff.mpr ⟨_, List.mem_cons_self, rfl⟩
  -- the root of the new chain was no handle before
  have hold : m.pool.isHandle h ≠ true := by
    intro hold
    obtain ⟨L, hL, hLh⟩ := hc.isHandle_iff.mp hold
    exact hg.chained.not_mem_of_mem List.mem_cons_self
      (List.mem_flatten_of_mem hL (List.mem_of_mem_head? hLh))
  -- so no window shows it
  have hmap : m'.isMapped h = false := by
    unfold isMapped
    rw [hwin, ← Bool.not_eq_true, Vector.any_eq_true]
    rintro ⟨w, hlt, he⟩
    exact hanchored.not_mem_windows hold (beq_iff_eq.mp he ▸ Vector.getElem_mem hlt)
  rw [run_free hn hh harg hmap]
  exact ⟨rfl, hg.restores hc hb, hwin⟩

/-! ### Putting in and taking out -/

/-- What an insertion beside the cursor needs. -/
theorem ready_of_insertError (he : m.insertError = .none) :
    m.cursorNode.isAllocated = true ∧ ∃ new, m.pool.firstFree = some new := by
  unfold insertError at he
  split_ifs at he with ha
  refine ⟨ha, ?_⟩
  cases hf : m.pool.firstFree with
  | none =>
    rw [hf] at he
    exact absurd he (by simp)
  | some new => exact ⟨new, rfl⟩

/-- Commands in turn have succeeded if the cursor was at a node and the second has succeeded. -/
theorem ready_of_inTurn {f : Pool n → Fin n → Fin n} {second : Mmu n → MmuError × Mmu n}
    (he : (m.inTurn (moveCursor · f) second).1 = .none) :
    m.cursorNode.isAllocated = true ∧ ∃ c, (second { m with cursor := c }).1 = .none := by
  unfold inTurn moveCursor atCursor at he
  dsimp only at he
  split_ifs at he with ha
  exact ⟨ha, _, he⟩

/-- A node is put in only beside another, and only if there is one. -/
theorem ready_of_insertion {k length : ℕ}
    (hplace : insertion k length command = some (place, beside))
    (he : (m.perform command).1 = .none) :
    m.cursorNode.isAllocated = true ∧ ∃ new, m.pool.firstFree = some new := by
  -- each of the four ends in one of the two insertions
  cases command with
  | insertBefore => exact ready_of_insertError (m.insertBefore_error.symm.trans he)
  | insertAfter => exact ready_of_insertError (m.insertAfter_error.symm.trans he)
  | pushFront =>
    obtain ⟨ha, c, hc⟩ := ready_of_inTurn (f := Pool.rootOf) he
    exact ⟨ha, (ready_of_insertError ((insertBefore_error _).symm.trans hc)).2⟩
  | pushBack =>
    obtain ⟨ha, c, hc⟩ := ready_of_inTurn (f := Pool.lastOf) he
    exact ⟨ha, (ready_of_insertError ((insertAfter_error _).symm.trans hc)).2⟩
  | _ => exact absurd hplace (by simp [insertion])

/-- The place where a command has put a node is the one that the other command takes it from. -/
theorem removal_of_insertion {k length : ℕ} (hback : inverse command = some back)
    (hfree : back ≠ .free) (hk : k < length) :
    ∃ place beside, insertion k length command = some (place, beside) ∧ place ≤ length ∧
      removal place (length + 1) back = some place := by
  cases command with
  | insertBefore | insertAfter | pushFront | pushBack =>
    obtain rfl := Option.some.inj hback
    exact ⟨_, _, rfl, by omega, rfl⟩
  | alloc | pageAlloc => exact absurd (Option.some.inj hback).symm hfree
  | _ => exact absurd hback (by simp [inverse])

/-- **Taking a node out takes its insertion back.** -/
theorem undone_of_inserted {neighbour : Fin n} (hc : m.pool.Chained (L :: S))
    (hc'' : m''.pool.Chained T) (hh : L.head? = some h) (hanchored : m.Anchored)
    (hb : m.pool.Blank) (hm : m.pool.Marked) (hm'' : m''.pool.Marked)
    (hplace : place ≤ L.length) (hin : Inserted m m' h place neighbour new)
    (hg : (L.insertIdx place new).head? = some g) (hout : Removed m' m'' g place new)
    (herror : m''.error = .none) : Undone m m'' := by
  have hchain : m.pool.chain h = L := hc.chain_eq_of_mem List.mem_cons_self hh
  have hinto := hin.spliced
  rw [hchain] at hinto
  have hchain' : m'.pool.chain g = L.insertIdx place new := hinto.edited.chain_eq g hg
  have hfrom := hout.spliced
  rw [hchain', List.eraseIdx_insertIdx_self] at hfrom
  -- what is in the chain in between is the new node and the old members
  have hmem : ∀ k, k ∈ L.insertIdx place new ↔ k = new ∨ k ∈ L := fun k =>
    List.mem_insertIdx hplace
  refine ⟨herror, hinto.edited.restores hfrom.edited hc hc'' hh hg (fun k hk => ?_) hm hm''
    fun k hk hkL => ?_, ?_⟩
  · exact (hmem k).mpr (.inr hk)
  · -- the node that has come and gone is as it was before
    obtain rfl := ((hmem k).mp hk).resolve_right hkL
    rw [hout.freed, hc.node_eq_free hb hin.joins.was_free]
  · rw [hfrom.windows_eq, hinto.windows_eq, hg, hh]
    refine windows_map_back fun hshown => ?_
    -- a window that shows the new name already shows the chain by its old name
    have hhandle : m.pool.isHandle g = true := by
      by_contra hno
      exact hanchored.not_mem_windows hno hshown
    rcases (hmem g).mp (List.mem_of_mem_head? hg) with rfl | hgL
    · have hfree := hin.joins.was_free
      unfold Pool.isHandle at hhandle
      rw [hfree] at hhandle
      exact absurd hhandle (by simp)
    · obtain ⟨M, hM, hMg⟩ := hc.isHandle_iff.mp hhandle
      have hroot := hc.root_eq M hM g (List.mem_of_mem_head? hMg)
      rw [hc.root_eq L List.mem_cons_self g hgL, hh, hMg] at hroot
      exact (Option.some.inj hroot).symm

/-! ### The commands -/

/-- A command that has built a chain is taken back by freeing it. -/
theorem undone_of_allocation (hn : n < 65536) (hc : m.pool.Chained S) (hb : m.pool.Blank)
    (hanchored : m.Anchored) (hback : inverse command = some .free)
    (hdone : ((m.announce command).perform command).1 = .none ∨
      ((m.announce command).perform command).1 = .alloc) :
    Undone m ((m.run command.code).run Command.free.code) := by
  -- only the two allocating commands are undone by FREE
  obtain ⟨count, template, hact⟩ : ∃ count template,
      (m.announce command).perform command = (m.announce command).allocateChain count template := by
    cases command with
    | alloc => exact perform_allocation _ (.inr rfl)
    | pageAlloc => exact perform_allocation _ (.inl rfl)
    | _ => exact absurd hback (by simp [inverse])
  have hrun : m.run command.code = conclude ((m.announce command).perform command) := m.run_code _
  rw [hact] at hdone hrun
  -- ARG_1 names the chain that FREE is to release
  obtain ⟨root, B, hg, harg, hwin⟩ :=
    gains_of_allocateChain (m := m.announce command) hc hdone
  rw [hrun]
  refine undone_of_gains (h := root) (B := B) hn hc hb hanchored ?_ ?_ ?_
  · rw [conclude_pool]
    exact hg
  · rw [conclude_arg1, harg]
  · rw [conclude_windows, hwin]
    rfl

/-- A command that has put a node into a chain is taken back by taking the node out. -/
theorem undone_of_insertion (hc : m.pool.Chained S) (hb : m.pool.Blank) (hanchored : m.Anchored)
    (hc' : (m.run command.code).pool.Chained T)
    (hc'' : ((m.run command.code).run back.code).pool.Chained T') (hm : m.pool.Marked)
    (hm'' : ((m.run command.code).run back.code).pool.Marked)
    (hback : inverse command = some back) (hfree : back ≠ .free)
    (hdone : ((m.announce command).perform command).1 = .none) :
    Undone m ((m.run command.code).run back.code) := by
  obtain ⟨ha, new, hnew⟩ :
      m.cursorNode.isAllocated = true ∧ ∃ new, m.pool.firstFree = some new := by
    obtain ⟨place, beside, hplace, -⟩ := removal_of_insertion hback hfree Nat.zero_lt_one
    exact ready_of_insertion (m := m.announce command) hplace hdone
  -- the chain under the cursor is edited
  obtain ⟨L, S', h, -, hL, hmem, hh, -⟩ := exists_ends hc ha
  obtain ⟨k, hk⟩ := List.getElem?_of_mem hmem
  obtain ⟨place, beside, hplace, hle, hremoval⟩ :=
    removal_of_insertion hback hfree (List.getElem?_eq_some_iff.mp hk).1
  obtain ⟨-, neighbour, -, hin⟩ := insertions command hL hh hk hnew hplace
  have hchain : m.pool.chain h = L := hL.chain_eq_of_mem List.mem_cons_self hh
  have hinto := hin.spliced.edited
  rw [hchain] at hinto
  have hnewmem : new ∈ L.insertIdx place new := (List.mem_insertIdx hle).mpr (.inl rfl)
  obtain ⟨g, hg⟩ := exists_head_of_mem hnewmem
  obtain ⟨T'', hL'⟩ := hinto.exists_chained hc' hg
  -- the cursor is on the new node
  have hcursor : (L.insertIdx place new)[place]? = some (m.run command.code).cursor := by
    rw [hin.cursor_eq, List.getElem?_insertIdx_self, if_pos hle]
  -- it has two nodes at least, so the second command is not refused
  have hlen := List.length_insertIdx_of_le_length hle new
  have hpos := List.length_pos_of_mem hmem
  rw [← hlen] at hremoval
  have hout := removals back hL' hg hcursor hremoval
  rw [if_neg (by omega)] at hout
  obtain ⟨herror, old, hold, hremoved⟩ := hout
  obtain rfl : old = new := by
    rw [List.getElem?_insertIdx_self, if_pos hle] at hold
    exact (Option.some.inj hold).symm
  exact undone_of_inserted hL hc'' hh hanchored hb hm hm'' hle hin hg hremoved herror

/-- What a guest can ask of the unit, and more: no request writes to a payload by position, or
allocates nodes that carry a break mark from the start. -/
def Request.ByGuest (r : Request) : Prop := r.Plain ∧ r.Guarded

instance : DecidablePred Request.ByGuest := fun _ => inferInstanceAs (Decidable (_ ∧ _))

/-- A unit can be reached with a command more if commands may be given. -/
theorem ReachableBy.run {kind : Request → Prop} (hm : m.ReachableBy kind)
    (hkind : kind (.command command.code)) : (m.run command.code).ReachableBy kind := by
  show (m.serveAll [.command command.code]).ReachableBy kind
  exact hm.serveAll fun _ hr => List.mem_singleton.mp hr ▸ hkind

/-- **Allocation and insertion are undone exactly.** A command that has allocated a chain, complete
or not, or put a node into one, is taken back by freeing the chain in the first argument register
or by deleting the node. Nodes, counts and windows are what they were. -/
theorem commands_undone (hn : n < 65536) (hm : m.ReachableBy Request.ByGuest)
    (hback : inverse command = some back)
    (hdone : (m.run command.code).error = .none ∨ (m.run command.code).error = .alloc) :
    Undone m ((m.run command.code).run back.code) := by
  have hm' : (m.run command.code).ReachableBy Request.ByGuest := hm.run ⟨trivial, trivial⟩
  have hm'' : ((m.run command.code).run back.code).ReachableBy Request.ByGuest :=
    hm'.run ⟨trivial, trivial⟩
  obtain ⟨S, hS⟩ := hm.exists_chained hn
  obtain ⟨S', hS'⟩ := hm'.exists_chained hn
  obtain ⟨S'', hS''⟩ := hm''.exists_chained hn
  have hblank := (hm.mono fun _ hr => hr.2).blank hn
  have hanchored := hm.anchored hn
  have hdone' : ((m.announce command).perform command).1 = .none ∨
      ((m.announce command).perform command).1 = .alloc := by
    rwa [run_code, conclude_error] at hdone
  -- either a whole chain goes or one node
  by_cases hfree : back = .free
  · subst hfree
    exact undone_of_allocation hn hS hblank hanchored hback hdone'
  · -- only an allocation can exhaust the pool and still do something
    have hnone : ((m.announce command).perform command).1 = .none := by
      refine hdone'.resolve_right fun hexhausted => ?_
      rcases eq_alloc_of_exhausted hexhausted with rfl | rfl <;>
        exact hfree (Option.some.inj hback).symm
    exact undone_of_insertion hS hblank hanchored hS' hS'' ((hm.mono fun _ hr => hr.1).marked hn)
      ((hm''.mono fun _ hr => hr.1).marked hn) hback hfree hnone

/-- In the small unit with both windows on its chain, a new root is put in and taken out again, and
the pool is exhausted and given back. -/
theorem commands_undone_sample :
    Undone shownUnit ((shownUnit.run Command.pushFront.code).run Command.popFront.code) ∧
      (shownUnit.run Command.pushFront.code).window? 0 ≠ shownUnit.window? 0 ∧
      Undone greedyUnit ((greedyUnit.run Command.alloc.code).run Command.free.code) ∧
      (greedyUnit.run Command.alloc.code).error = .alloc := by
  have hshown :
      Undone shownUnit ((shownUnit.run Command.pushFront.code).run Command.popFront.code) :=
    commands_undone (by decide) ⟨by decide, shownRequests, by decide, rfl⟩ rfl
      (.inl (by decide +kernel))
  have hgreedy : Undone greedyUnit ((greedyUnit.run Command.alloc.code).run Command.free.code) :=
    commands_undone (by decide) ⟨by decide, greedyRequests, by decide, rfl⟩ rfl
      (.inr (by decide +kernel))
  exact ⟨hshown, by decide +kernel, hgreedy, by decide +kernel⟩

end Undoing

end Mmu

end Machine6809
