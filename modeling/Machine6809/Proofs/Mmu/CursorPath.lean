import Machine6809.Proofs.Mmu.Cells
import Machine6809.Proofs.Mmu.WordRegisters

/-!
# Two ways to the bytes of a chain

A guest gets at the bytes of a chain in two ways. It selects the chain into a window and finds byte
`i` of node `k` at offset `32k + i`; or it puts the cursor on the handle, goes on to the next node
`k` times, and finds the byte in the payload registers. The two ways meet at the same byte
(`paths_agree`), and past the end of the chain both fail: the cursor stays on the last node and the
command gives the error `node`, while the access to the window gives `bank`.

The unit follows the links for a window by itself, and for the cursor one by one as it is told. What
both find is the chain as a list: `Pool.Chained.follow?_eq` says so for the window, and here the
same is proved for the cursor (`Walked.step`), by induction over the commands.
-/

namespace Machine6809

variable {n : ℕ}

/-- Going along a chain as it is linked is going through its list. -/
theorem Pool.FullChain.next_eq {p : Pool n} {h i : Fin n} {L : List (Fin n)} {k : ℕ}
    (hL : p.FullChain h L) (hi : L[k]? = some i) : (p.node i).next = L[k + 1]? := by
  obtain ⟨A, B, rfl, rfl⟩ := exists_append_of_getElem? hi
  rw [getElem?_succ_length_append]
  cases B with
  | nil => exact hL.ends i List.getLast?_concat
  | cons j B => exact (List.isChain_append.mp hL.linked).2.1.rel

namespace Mmu

/-! ### The requests -/

/-- Byte `i` of the node that is the `k`-th of a chain, in a window that shows the chain. -/
def offsetAt (k : Fin pageNodes) (i : Fin payloadSize) : Fin windowSize :=
  ⟨payloadSize * k + i, by
    have hk := k.isLt
    have hi := i.isLt
    show payloadSize * k + i < pageNodes * payloadSize
    unfold payloadSize pageNodes at *
    omega⟩

/-- The register of byte `i` of the payload. -/
def payloadRegister (i : Fin payloadSize) : Word := UInt16.ofNat (0x10 + i)

/-- Put the cursor on a node, and then on the next one, `k` times. -/
def walkRequests (h : Fin n) (k : ℕ) : List Request :=
  wordRequests 0x36 (positionWord h)
    ++ List.replicate k (.writeRegister 0x0E Command.loadNext.code)

/-- The unit after the cursor has gone `k` nodes along the chain of `h`. -/
def walked (m : Mmu n) (h : Fin n) (k : ℕ) : Mmu n := m.serveAll (walkRequests h k)

/-- One step more is one LOAD_NEXT more. -/
theorem walked_succ (m : Mmu n) (h : Fin n) (k : ℕ) :
    m.walked h (k + 1) = (m.walked h k).run Command.loadNext.code := by
  unfold walked walkRequests
  rw [List.replicate_succ', ← List.append_assoc, serveAll_concat]
  rfl

/-- After `k` steps along the chain `L` of `m` the unit is `u`. The cursor has gone along with the
steps as far as the chain goes, and the error register says whether the last of them could be
made. -/
structure Walked (m : Mmu n) (L : List (Fin n)) (k : ℕ) (u : Mmu n) : Prop where
  pool_eq : u.pool = m.pool
  windows_eq : u.windows = m.windows
  cursor_eq : L[min k (L.length - 1)]? = some u.cursor
  error_eq : u.error = if k = 0 then m.error else if k < L.length then .none else .node

section Walk

variable {m u : Mmu n} {S : List (List (Fin n))} {L : List (Fin n)} {h i j : Fin n} {k : ℕ}

/-- Putting the cursor on a handle changes the cursor and the latch. -/
theorem walked_zero (hn : n < 65536) (m : Mmu n) (h : Fin n) :
    ∃ latch, m.walked h 0 = { m with latch, cursor := h } := by
  have hcursor : (0x36, .cursor) ∈ wordRegisters := by decide
  -- the two bytes are put together again to the position of the handle
  have hword : wordOf ((m.writeRegister 0x36 (highByte (positionWord h))).latched 0x36)
      (lowByte (positionWord h)) = positionWord h := by
    rw [latched_writeRegister_high hcursor hcursor, if_pos rfl, wordOf_highByte_lowByte]
  refine ⟨(m.writeRegister 0x36 (highByte (positionWord h))).latch, ?_⟩
  show (m.writeRegister 0x36 (highByte (positionWord h))).writeRegister (0x36 + 1)
    (lowByte (positionWord h)) = _
  rw [writeRegister_low hcursor, hword]
  dsimp only [writeWord, setCursor]
  rw [Pool.index?_positionWord hn, writeRegister_high hcursor]
  rfl

/-- From an allocated node the command goes where the link says, or fails. -/
theorem run_loadNext (ha : u.cursorNode.isAllocated = true) :
    (u.run Command.loadNext.code).pool = u.pool ∧
      (u.run Command.loadNext.code).windows = u.windows ∧
      (u.run Command.loadNext.code).cursor = (u.cursorNode.next).getD u.cursor ∧
      (u.run Command.loadNext.code).error = if u.cursorNode.next = none then .node else .none := by
  have ha' : (u.announce .loadNext).cursorNode.isAllocated = true := ha
  have hrun : u.run Command.loadNext.code
      = conclude ((u.announce .loadNext).along Node.next) := u.run_code .loadNext
  unfold along at hrun
  rw [atCursor_eq ha'] at hrun
  rw [hrun]
  show _ ∧ _ ∧ _ = ((u.pool.node u.cursor).next).getD u.cursor ∧
    _ = if (u.pool.node u.cursor).next = none then _ else _
  -- announcing the command leaves pool and cursor alone
  have hnode : (u.announce .loadNext).pool.node (u.announce .loadNext).cursor
      = u.pool.node u.cursor := rfl
  rw [hnode]
  cases (u.pool.node u.cursor).next <;> exact ⟨rfl, rfl, rfl, rfl⟩

/-- **One step of the walk.** -/
theorem Walked.step (hc : m.pool.Chained S) (hh : m.pool.isHandle h = true)
    (hu : m.Walked (m.pool.chain h) k u) :
    m.Walked (m.pool.chain h) (k + 1) (u.run Command.loadNext.code) := by
  have hfull := hc.fullChain hh
  have hmem : u.cursor ∈ m.pool.chain h := List.mem_of_getElem? hu.cursor_eq
  have ha : u.cursorNode.isAllocated = true := by
    show (u.pool.node u.cursor).isAllocated = true
    rw [hu.pool_eq]
    exact hc.isAllocated_of_mem_chain hh hmem
  -- the link under the cursor is the next entry of the list, or none at its end
  obtain ⟨hpool, hwindows, hcursor, herror⟩ := run_loadNext ha
  have hnext : u.cursorNode.next = (m.pool.chain h)[min k ((m.pool.chain h).length - 1) + 1]? := by
    show (u.pool.node u.cursor).next = _
    rw [hu.pool_eq, hfull.next_eq hu.cursor_eq]
  rw [hnext] at hcursor herror
  refine ⟨hpool.trans hu.pool_eq, hwindows.trans hu.windows_eq, ?_, ?_⟩
  all_goals
    by_cases hlt : k + 1 < (m.pool.chain h).length
  · rw [hcursor, min_eq_left (by omega), min_eq_left (by omega), List.getElem?_eq_getElem hlt]
    rfl
  · -- the cursor has been on the last node already
    have hend : min (k + 1) ((m.pool.chain h).length - 1)
        = min k ((m.pool.chain h).length - 1) := by
      omega
    rw [hcursor, hend, hu.cursor_eq, List.getElem?_eq_none (by omega)]
    rfl
  · rw [herror, min_eq_left (by omega), List.getElem?_eq_getElem hlt]
    simp [hlt]
  · rw [herror, List.getElem?_eq_none (by omega)]
    simp [hlt]

/-- **The walk along a chain**, from its handle. -/
theorem walked_spec (hn : n < 65536) (hc : m.pool.Chained S) (hh : m.pool.isHandle h = true)
    (k : ℕ) : m.Walked (m.pool.chain h) k (m.walked h k) := by
  -- by the number of steps, each of which goes to the next member or fails at the last
  induction k with
  | zero =>
    obtain ⟨latch, hpointed⟩ := walked_zero hn m h
    rw [hpointed]
    refine ⟨rfl, rfl, ?_, rfl⟩
    rw [Nat.zero_min, ← List.head?_eq_getElem?]
    exact (hc.fullChain hh).head_eq
  | succ k ih =>
    rw [walked_succ]
    exact ih.step hc hh

end Walk

/-! ### One byte, reached in two ways -/

/-- What window `w` of `x` shows behind byte `i` of the `k`-th node of its chain is byte `i` of the
payload under the cursor of `u`. -/
structure SameByte (x u : Mmu n) (w : Fin windowCount) (k : Fin pageNodes) (i : Fin payloadSize) :
    Prop where
  read : x.readWindow w (UInt16.ofNat (offsetAt k i))
    = (some (u.readRegister (payloadRegister i)), x)
  /-- A byte written to the window is stored or dropped as one written to the register. -/
  write (v : Byte) : (x.writeWindow w (UInt16.ofNat (offsetAt k i)) v).2.pool
    = (u.writeRegister (payloadRegister i) v).pool
  /-- It is dropped if the node or its root is protected, and otherwise it is the only thing that
  changes. -/
  stored (v : Byte) : (u.writeRegister (payloadRegister i) v).pool
    = if u.pool.isProtected u.cursor then u.pool
      else u.pool.modifyNode u.cursor (·.withByte i v)
  readBack (v : Byte) : (u.writeRegister (payloadRegister i) v).readRegister (payloadRegister i)
    = if u.pool.isProtected u.cursor then u.readRegister (payloadRegister i) else v

/-- The chain in window `w` of `x` ends before its `k`-th node. Nothing can be read or written
there, and the unit says so. -/
structure PastEnd (x : Mmu n) (w : Fin windowCount) (k : Fin pageNodes) (i : Fin payloadSize) :
    Prop where
  read : x.readWindow w (UInt16.ofNat (offsetAt k i)) = (some 0, x.fail .bank)
  write (v : Byte) : x.writeWindow w (UInt16.ofNat (offsetAt k i)) v = (true, x.fail .bank)

section SameByte

variable {m x u : Mmu n} {S : List (List (Fin n))} {h : Fin n} {w : Fin windowCount}
  {k : Fin pageNodes} {i : Fin payloadSize}

/-- Behind an offset of a window there is a byte of the member that it falls into. -/
theorem cell?_offsetAt (hw : x.window? w = some h) :
    x.cell? w (offsetAt k i) = ((x.pool.chain h)[(k : ℕ)]?).map (Cell.payload · i) := by
  -- the offset is counted payload by payload
  have hdiv : (offsetAt k i : ℕ) / payloadSize = k := by
    show (payloadSize * (k : ℕ) + i) / payloadSize = k
    rw [Nat.mul_add_div (by decide), Nat.div_eq_of_lt i.isLt, Nat.add_zero]
  have hmod : (offsetAt k i : ℕ) % payloadSize = i := by
    show (payloadSize * (k : ℕ) + i) % payloadSize = i
    rw [Nat.mul_add_mod, Nat.mod_eq_of_lt i.isLt]
  rw [cell?_of_some hw, hdiv]
  refine congrArg (Option.map · _) ?_
  funext j
  exact congrArg (Cell.payload j) (Fin.ext hmod)

/-- The payload registers are where the table has them. -/
theorem ofOffset_payloadRegister (i : Fin payloadSize) :
    RegisterByte.ofOffset (payloadRegister i).toNat = .payload i := by
  have table : ∀ i : Fin payloadSize,
      RegisterByte.ofOffset (payloadRegister i).toNat = .payload i := by decide
  exact table i

/-- A payload register reads a byte of the node at the cursor. -/
theorem readRegister_payload (u : Mmu n) (i : Fin payloadSize) :
    u.readRegister (payloadRegister i) = u.cursorNode.payload.getD i 0 := by
  unfold readRegister
  rw [ofOffset_payloadRegister]

/-- Writing to one writes a byte of that node. -/
theorem writeRegister_payload (ha : u.cursorNode.isAllocated = true) (i : Fin payloadSize)
    (v : Byte) : u.writeRegister (payloadRegister i) v = (u.writeNode u.cursor i v).2 := by
  unfold writeRegister
  rw [ofOffset_payloadRegister]
  exact if_pos ha

/-- The payload under the cursor after a byte has been written to it. -/
theorem readBack_writeNode (u : Mmu n) (i : Fin payloadSize) (v : Byte) :
    (u.writeNode u.cursor i v).2.cursorNode.payload.getD i 0
      = if u.pool.isProtected u.cursor then u.cursorNode.payload.getD i 0 else v := by
  -- the write leaves the cursor where it is
  have hcursor : (u.writeNode u.cursor i v).2.cursor = u.cursor := by
    unfold writeNode
    split_ifs <;> rfl
  unfold cursorNode
  rw [hcursor, (u.writeNode_eq u.cursor i v).1]
  unfold Cell.storePool
  dsimp only
  split_ifs
  · rfl
  · rw [Pool.node_modifyNode, if_pos rfl, Cell.getD_withByte, if_pos rfl]

/-- With the cursor on the `k`-th node of the chain that the window shows, both are at one byte. -/
theorem sameByte (hc : x.pool.Chained S) (hanchored : x.Anchored) (hw : x.window? w = some h)
    (hpool : u.pool = x.pool) (hcursor : (x.pool.chain h)[(k : ℕ)]? = some u.cursor) :
    SameByte x u w k i := by
  have hcell : x.cell? w (offsetAt k i) = some (.payload u.cursor i) := by
    rw [cell?_offsetAt hw, hcursor]
    rfl
  -- members are allocated
  have ha : u.cursorNode.isAllocated = true := by
    show (u.pool.node u.cursor).isAllocated = true
    rw [hpool]
    exact hc.isAllocated_of_mem_chain (hanchored w h hw) (List.mem_of_getElem? hcursor)
  -- either way the write is the same store to the same cell
  have hwrite : ∀ v, (u.writeRegister (payloadRegister i) v).pool
      = Cell.storePool u.pool v (some (.payload u.cursor i)) := by
    intro v
    rw [writeRegister_payload ha]
    exact (u.writeNode_eq u.cursor i v).1
  refine ⟨?_, fun v => ?_, hwrite, fun v => ?_⟩
  · rw [readWindow_eq hc hanchored, hcell, readRegister_payload]
    unfold cursorNode
    rw [hpool]
  · rw [(writeWindow_pool hc hanchored w _ v).1, hcell, hwrite, hpool]
  · rw [readRegister_payload, writeRegister_payload ha, readBack_writeNode, readRegister_payload]

/-- Past the end of its chain a window reads zero and drops writes, with an error for both. -/
theorem pastEnd (hc : x.pool.Chained S) (hanchored : x.Anchored) (hw : x.window? w = some h)
    (hle : (x.pool.chain h).length ≤ k) : PastEnd x w k i := by
  have hcell : x.cell? w (offsetAt k i) = none := by
    rw [cell?_offsetAt hw, List.getElem?_eq_none hle]
    rfl
  refine ⟨?_, fun v => ?_⟩
  · rw [readWindow_eq hc hanchored, hcell]
  · rw [writeWindow_eq hc hanchored, hcell]

end SameByte

/-! ### The two ways compared -/

/-- The cursor goes along the chain of `h`, which window `w` shows, as far as the window does. -/
structure PathsAgree (m : Mmu n) (w : Fin windowCount) (h : Fin n) (length : ℕ) : Prop where
  length_eq : m.chainLength (positionWord h) = .ok length
  /-- The cursor can be put on the handle. -/
  starts : (m.walked h 0).cursor = h ∧ (m.walked h 0).error = m.error
  /-- Each step before the end of the chain succeeds. -/
  goes : ∀ k, 0 < k → k < length → (m.walked h k).error = .none
  /-- The step from the last node fails, and so does each one after it. -/
  ends : 0 < length ∧ ∀ k, length ≤ k → (m.walked h k).error = .node
  /-- Going along a chain changes nothing in it. -/
  kept : ∀ k, (m.walked h k).pool = m.pool ∧ (m.walked h k).windows = m.windows
  inside : ∀ (k : Fin pageNodes) (i : Fin payloadSize), k < length →
    SameByte m (m.walked h k) w k i ∧ SameByte (m.walked h k) (m.walked h k) w k i
  outside : ∀ (k : Fin pageNodes) (i : Fin payloadSize), length ≤ k →
    PastEnd m w k i ∧ PastEnd (m.walked h k) w k i

/-- **The cursor and the windows lead to the same bytes.** In every state of the unit, for every
chain that a window shows: going to its `k`-th node with the cursor succeeds if there is one, and
then the payload registers and the window read the same and write the same, or both write nothing;
and otherwise both fail. -/
theorem paths_agree {m : Mmu n} {w : Fin windowCount} {h : Fin n} (hn : n < 65536)
    (hm : m.Reachable) (hw : m.window? w = some h) : ∃ length, m.PathsAgree w h length := by
  obtain ⟨S, hS⟩ := hm.exists_chained hn
  have hanchored := hm.anchored hn
  have hh := hanchored w h hw
  -- what every number of LOAD_NEXT leads to
  have hwalk := walked_spec hn hS hh
  -- the walk leads through reachable units that show what `m` shows
  have hanchored' : ∀ k, (m.walked h k).Anchored := fun k => (hm.serveAll _).anchored hn
  have hw' : ∀ k, (m.walked h k).window? w = some h := fun k => by
    rw [window?_congr (hwalk k).windows_eq, hw]
  have hchained' : ∀ k, (m.walked h k).pool.Chained S := fun k => by
    rw [(hwalk k).pool_eq]
    exact hS
  obtain ⟨B, hB⟩ := List.head?_eq_some_iff.mp (hS.fullChain hh).head_eq
  have hpos : 0 < (m.pool.chain h).length := by
    rw [hB]
    exact Nat.succ_pos _
  refine ⟨(m.pool.chain h).length, ?_, ⟨?_, (hwalk 0).error_eq⟩, fun k hk hlt => ?_,
    ⟨hpos, fun k hle => ?_⟩, fun k => ⟨(hwalk k).pool_eq, (hwalk k).windows_eq⟩,
    fun k i hlt => ?_, fun k i hle => ?_⟩
  · unfold chainLength
    rw [Pool.handle?_positionWord hn hh]
  · have hcursor := (hwalk 0).cursor_eq
    rw [Nat.zero_min, ← List.head?_eq_getElem?, (hS.fullChain hh).head_eq] at hcursor
    exact (Option.some.inj hcursor).symm
  · rw [(hwalk k).error_eq, if_neg hk.ne', if_pos hlt]
  · rw [(hwalk k).error_eq, if_neg (by omega), if_neg (by omega)]
  · -- inside the chain both ways lead to member `k`
    have hcursor := (hwalk k).cursor_eq
    rw [min_eq_left (by omega)] at hcursor
    refine ⟨sameByte hS hanchored hw (hwalk k).pool_eq hcursor, ?_⟩
    refine sameByte (hchained' k) (hanchored' k) (hw' k) rfl ?_
    rw [(hwalk k).pool_eq]
    exact hcursor
  · -- behind its end there is nothing to meet
    refine ⟨pastEnd hS hanchored hw hle, ?_⟩
    refine pastEnd (hchained' k) (hanchored' k) (hw' k) ?_
    rwa [(hwalk k).pool_eq]

/-- The first window. -/
def firstWindow : Fin windowCount := ⟨0, by decide⟩

/-- In the small unit the chain goes past a node that belongs to nobody. -/
theorem paths_agree_sample :
    6 < 65536 ∧ shownUnit.Reachable ∧ shownUnit.window? firstWindow = some 0 ∧
      (∃ length, shownUnit.PathsAgree firstWindow 0 length) ∧ shownUnit.pool.chain 0 = [0, 2] := by
  have hreachable : shownUnit.Reachable := ⟨six_pos, shownRequests, fun _ _ => trivial, rfl⟩
  have hw : shownUnit.window? firstWindow = some 0 := by decide +kernel
  exact ⟨by decide, hreachable, hw, paths_agree (by decide) hreachable hw, by decide +kernel⟩

end Mmu

end Machine6809
