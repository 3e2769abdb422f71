import Machine6809.Proofs.Mmu.Splicing

/-!
# Commands that fail

The error register says how the last command ended (`Mmu.Reported`). If it ended with an error the
guest may go on with what it had: pool, windows and arguments are as they were (`Mmu.Refused`).
There are two exceptions. A push that finds no free node leaves the cursor at the end of the chain
that it was to work on, and an allocation that exhausts the pool keeps what it has built
(`Mmu.Exhausted`).

That a refused command has no effect is settled by `attempt_perform` for all commands at once, up
to the cursor. What is left is the cursor (`cursorFor_of_refused`). A pop that is refused has moved
the cursor as well, but only along a chain of one node.
-/

namespace Machine6809

namespace Mmu

variable {n : ℕ}

/-! ### What the guest is told -/

/-- What the command with a code gives back. -/
def outcome (m : Mmu n) (code : Byte) : MmuError :=
  match Command.ofCode? code with
  | none => .invalid
  | some command => ((m.announce command).perform command).1

/-- The guest reads the error in its register, and no command is under way. -/
structure Reported (m : Mmu n) (e : MmuError) : Prop where
  error_eq : m.error = e
  error_register : m.readRegister 0x0F = e.code
  command_register : m.readRegister 0x0E = 0

/-- The command with a code has been refused: pool, windows and arguments are the same, and so is
the cursor, unless the command is a push that has found no free node. Such a push leaves the cursor
on the last node of its chain or on the root, depending on the end that it works on. -/
structure Refused (m : Mmu n) (code : Byte) (m' : Mmu n) : Prop where
  pool_eq : m'.pool = m.pool
  windows_eq : m'.windows = m.windows
  arg1_eq : m'.arg1 = m.arg1
  arg2_eq : m'.arg2 = m.arg2
  cursor_eq : (code = Command.pushBack.code ∨ code = Command.pushFront.code →
    m'.error ≠ .outOfMemory) → m'.cursor = m.cursor
  cursor_pushBack : code = Command.pushBack.code → m'.error = .outOfMemory →
    ∃ h, m.pool.isHandle h = true ∧ m.cursor ∈ m.pool.chain h ∧
      (m.pool.chain h).getLast? = some m'.cursor
  cursor_pushFront : code = Command.pushFront.code → m'.error = .outOfMemory →
    m.pool.isHandle m'.cursor = true ∧ m.cursor ∈ m.pool.chain m'.cursor

/-- An allocation has exhausted the pool. Only nodes that were free have changed. They form one
chain, whose handle is in the first argument register, and no node is free any more. -/
structure Exhausted (m m' : Mmu n) : Prop where
  kept : ∀ i, (m.pool.node i).isAllocated = true → m'.pool.node i = m.pool.node i
  chain : ∃ h, m'.pool.handle? m'.arg1 = some h ∧ m'.pool.FullChain h (m'.pool.chain h) ∧
    ∀ i, i ∈ m'.pool.chain h ↔ (m.pool.node i).isAllocated = false
  freeCount_eq : m'.pool.freeCount = 0
  windows_eq : m'.windows = m.windows
  arg2_eq : m'.arg2 = m.arg2
  cursor_eq : m'.cursor = m.cursor

/-- The last error after a command is its outcome. -/
theorem run_error (m : Mmu n) (code : Byte) : (m.run code).error = m.outcome code := by
  unfold run outcome
  rw [conclude_error]
  cases Command.ofCode? code <;> rfl

section Refusals

variable {m : Mmu n} {a : Action n} {S T : List (List (Fin n))} {A B L : List (Fin n)} {h l : Fin n}
  {command : Command}

/-! ### Refused commands -/

/-- An attempt that has failed, other than by running out of nodes, has done nothing. -/
theorem Attempt.eq_of_failed {x : MmuError × Mmu n} (hx : Attempt m a x) (he : x.1 ≠ .none)
    (hk : x.1 ≠ .alloc) : x.2 = m := by
  cases hx with
  | refused => rfl
  | done hdone =>
    rcases hdone with hdone | ⟨hdone, -⟩
    · exact absurd hdone he
    · exact absurd hdone hk

/-- Only an allocation exhausts the pool. -/
theorem eq_alloc_of_exhausted (he : (m.perform command).1 = .alloc) :
    command = .pageAlloc ∨ command = .alloc := by
  have hattempt := m.attempt_perform command
  generalize m.perform command = x at hattempt he
  cases hattempt with
  | refused failed kept => exact absurd he kept
  | done hdone hacts =>
    rcases hdone with hdone | ⟨-, count, template, ha⟩
    · -- it has succeeded, or it was an allocation
      exact absurd (he.symm.trans hdone) (by simp)
    · have hfor := m.commandAction_isFor command
      rwa [ha] at hfor

/-- A command that runs out of nodes is an allocation. -/
theorem perform_eq_of_alloc (he : (m.perform command).1 = .alloc) :
    ∃ count template, m.perform command = m.allocateChain count template :=
  m.perform_allocation (eq_alloc_of_exhausted he)

/-! ### The cursor -/

/-- At a free node no command moves the cursor first. -/
theorem cursorFor_of_free (ha : m.cursorNode.isAllocated = false) (command : Command) :
    m.cursorFor command = m.cursor := by
  cases command with
  | pushFront | popFront =>
    change m.toRoot.2.cursor = m.cursor
    rw [toRoot_eq_moveCursor, moveCursor_cursor, ha]
    rfl
  | pushBack | popBack =>
    change m.toLast.2.cursor = m.cursor
    rw [toLast_eq_moveCursor, moveCursor_cursor, ha]
    rfl
  | _ => rfl

/-- How an insertion beside the cursor ends, on either side. -/
def insertError (m : Mmu n) : MmuError :=
  if m.cursorNode.isAllocated then
    match m.pool.firstFree with
    | none => .outOfMemory
    | some _ => .none
  else .node

/-- How INSERT_BEFORE ends depends on the cursor and on there being a free node. -/
theorem insertBefore_error (m : Mmu n) : m.insertBefore.1 = m.insertError := by
  unfold insertBefore atCursor insertError
  split_ifs with ha
  · dsimp only
    cases m.pool.firstFree <;> rfl
  · rfl

theorem insertAfter_error (m : Mmu n) : m.insertAfter.1 = m.insertError := by
  unfold insertAfter atCursor insertError
  split_ifs with ha
  · dsimp only
    cases m.pool.firstFree <;> rfl
  · rfl

/-- Inserting beside an allocated node fails only for want of a free one. -/
theorem insertError_eq_outOfMemory (ha : m.cursorNode.isAllocated = true)
    (he : m.insertError ≠ .none) : m.insertError = .outOfMemory := by
  unfold insertError at he ⊢
  rw [if_pos ha] at he ⊢
  cases hf : m.pool.firstFree with
  | none => rfl
  | some new =>
    rw [hf] at he
    exact absurd rfl he

/-- Taking out an allocated node fails only if it is the only one of its chain. -/
theorem eq_singleton_of_deleteNode (hc : m.pool.Chained (L :: T)) (hmem : m.cursor ∈ L)
    (he : m.deleteNode.1 ≠ .none) : L = [m.cursor] := by
  obtain ⟨A, B, rfl⟩ := List.append_of_mem hmem
  obtain ⟨h, hh⟩ := exists_head_of_mem hmem
  -- with another member in the chain the removal would have succeeded
  by_contra hne
  have hok : A = [] → B = [] → m.isMapped h = false := by
    rintro rfl rfl
    exact absurd rfl hne
  obtain ⟨m', hm', -⟩ := removed_deleteNode hc hh hok
  rw [hm'] at he
  exact he rfl

/-- The chain of an allocated node, with its ends. -/
theorem exists_ends {p : Pool n} {i : Fin n} (hc : p.Chained S)
    (ha : (p.node i).isAllocated = true) : ∃ L T h l, p.Chained (L :: T) ∧ i ∈ L ∧
      L.head? = some h ∧ L.getLast? = some l := by
  obtain ⟨A, B, T, -, hT⟩ := hc.exists_focus ha
  have hmem : i ∈ A ++ i :: B := by simp
  obtain ⟨h, hh⟩ := exists_head_of_mem hmem
  obtain ⟨l, hl⟩ := exists_last_of_mem hmem
  exact ⟨_, T, h, l, hT, hmem, hh, hl⟩

/-- **The cursor of a refused command.** A command that fails has not moved the cursor, unless it
is a push that has found no free node. -/
theorem cursorFor_of_refused (hc : m.pool.Chained S) (he : (m.perform command).1 ≠ .none)
    (hpush : command = .pushBack ∨ command = .pushFront → (m.perform command).1 ≠ .outOfMemory) :
    m.cursorFor command = m.cursor := by
  cases ha : m.cursorNode.isAllocated with
  | false => exact cursorFor_of_free ha command
  | true =>
    obtain ⟨L, T, h, l, hT, hmem, hh, hl⟩ := exists_ends hc ha
    have hroot := toRoot_eq hT hh hmem
    have hlast := toLast_eq hT hl hmem
    have hhL : h ∈ L := List.mem_of_mem_head? hh
    have hlL : l ∈ L := List.mem_of_getLast? hl
    cases command with
    -- a push is refused only when the pool is full
    | pushFront =>
      have hact : m.perform .pushFront = insertBefore { m with cursor := h } := inTurn_eq hroot
      rw [hact, insertBefore_error] at he hpush
      have hfull := insertError_eq_outOfMemory (m := { m with cursor := h }) (hT.isAllocated hhL) he
      exact absurd hfull (hpush (.inr rfl))
    | pushBack =>
      have hact : m.perform .pushBack = insertAfter { m with cursor := l } := inTurn_eq hlast
      rw [hact, insertAfter_error] at he hpush
      have hfull := insertError_eq_outOfMemory (m := { m with cursor := l }) (hT.isAllocated hlL) he
      exact absurd hfull (hpush (.inl rfl))
    | popFront =>
      have hact : m.perform .popFront = deleteNode { m with cursor := h } := inTurn_eq hroot
      rw [hact] at he
      -- the root is alone, so the cursor was on it
      have hL := eq_singleton_of_deleteNode (m := { m with cursor := h }) hT hhL he
      change m.toRoot.2.cursor = m.cursor
      rw [hroot]
      rw [hL] at hmem
      exact (List.mem_singleton.mp hmem).symm
    | popBack =>
      have hact : m.perform .popBack = deleteNode { m with cursor := l } := inTurn_eq hlast
      rw [hact] at he
      have hL := eq_singleton_of_deleteNode (m := { m with cursor := l }) hT hlL he
      change m.toLast.2.cursor = m.cursor
      rw [hlast]
      rw [hL] at hmem
      exact (List.mem_singleton.mp hmem).symm
    | _ => rfl

/-- A push that has found no free node was on an allocated one. -/
theorem isAllocated_of_push (hpush : command = .pushBack ∨ command = .pushFront)
    (he : (m.perform command).1 = .outOfMemory) : m.cursorNode.isAllocated = true := by
  by_contra ha
  rw [Bool.not_eq_true] at ha
  -- at a free node the command would have stopped before it looked for memory
  have hnode : (m.perform command).1 = .node := by
    rcases hpush with rfl | rfl
    · change (m.inTurn toLast insertAfter).1 = .node
      unfold inTurn toLast atCursor
      rw [ha]
      rfl
    · change (m.inTurn toRoot insertBefore).1 = .node
      unfold inTurn toRoot atCursor
      rw [ha]
      rfl
  exact absurd (he.symm.trans hnode) (by simp)

/-! ### Exhausted pools -/

/-- Building a chain from all the free nodes there are. -/
theorem exhausted_allocateChain (hn : n < 65536) (hc : m.pool.Chained S) {count : ℕ}
    {template : NodeStatus} (he : (m.allocateChain count template).1 = .alloc) :
    Exhausted m (m.allocateChain count template).2 := by
  have hcases := hc.allocate count template
  unfold allocateChain allocate at he ⊢
  rw [onPool_eq] at he ⊢
  dsimp only at he ⊢
  generalize m.pool.allocate count template = x at hcases he ⊢
  cases hcases with
  -- these end with another error, or with none
  | badLength | noneFree | built => exact nomatch he
  | exhausted gains length_lt hfree =>
    next q root B =>
    dsimp only
    have hq : q.Chained ((root :: B) :: S) := gains.chained
    have hhandle : q.isHandle root = true := hq.isHandle_iff.mpr ⟨_, List.mem_cons_self, rfl⟩
    have hall : ∀ k, (q.node k).isAllocated = true := hq.firstFree_eq_none_iff.mp hfree
    -- every node is in the new chain or has been allocated before
    have hmem : ∀ i, i ∈ root :: B ↔ (m.pool.node i).isAllocated = false := by
      intro i
      have hi : i ∈ (root :: B) ++ S.flatten := (hq.allocated_iff i).mp (hall i)
      constructor
      · intro hnew
        by_contra ha
        rw [Bool.not_eq_false] at ha
        exact hq.not_mem_of_mem hnew ((hc.allocated_iff i).mp ha)
      · intro ha
        rcases List.mem_append.mp hi with hnew | hold
        · exact hnew
        · exact absurd hold (hc.not_mem_of_free ha)
    have hchain : q.chain root = root :: B := hq.toLayout.chain_eq (A := [])
    refine ⟨fun i hi => gains.others i fun hnew => ?_, ?_, ?_, rfl, rfl, rfl⟩
    · exact absurd (hi.symm.trans ((hmem i).mp hnew)) (by simp)
    · refine ⟨root, Pool.handle?_positionWord hn hhandle, hq.fullChain hhandle, fun i => ?_⟩
      change i ∈ q.chain root ↔ _
      rw [hchain]
      exact hmem i
    · -- the count of free nodes is that of a full pool
      change q.freeCount = 0
      rw [hq.counted.free, Finset.card_eq_zero, Finset.filter_eq_empty_iff]
      exact fun i _ hfree => absurd ((hall i).symm.trans hfree) (by simp)

/-! ### All commands -/

/-- A command that has ended is reported. -/
theorem reported_run (m : Mmu n) (code : Byte) : Reported (m.run code) (m.outcome code) where
  error_eq := m.run_error code
  error_register := by
    change (m.run code).error.code = _
    rw [run_error]
  command_register := conclude_command _

/-- A command that fails, but does not exhaust the pool, is refused. -/
theorem refused_perform (hc : m.pool.Chained S)
    (he : ((m.announce command).perform command).1 ≠ .none)
    (hk : ((m.announce command).perform command).1 ≠ .alloc) :
    Refused m command.code (conclude ((m.announce command).perform command)) := by
  -- what has failed has done nothing but to move the cursor
  have hsame := ((m.announce command).attempt_perform command).eq_of_failed he hk
  have hcursor : (conclude ((m.announce command).perform command)).cursor
      = m.cursorFor command := by
    rw [conclude_cursor, hsame, cursorFor_announce]
  -- different commands have different codes
  have hcode : ∀ {c : Command}, command.code = c.code → command = c := by
    intro c hcode
    have h := ofCode?_code command
    rw [hcode, ofCode?_code] at h
    exact (Option.some.inj h).symm
  refine ⟨?_, ?_, ?_, ?_, fun hpush => ?_, fun hback hmem => ?_, fun hfront hmem => ?_⟩
  · rw [conclude_pool, hsame]
    rfl
  · rw [conclude_windows, hsame]
    rfl
  · rw [conclude_arg1, hsame]
    rfl
  · rw [conclude_arg2, hsame]
    rfl
  · -- the cursor has moved only for a push that found no free node
    rw [conclude_error] at hpush
    rw [hcursor, ← cursorFor_announce]
    refine cursorFor_of_refused (m := m.announce command) hc he fun hor => hpush ?_
    exact hor.imp (congrArg Command.code) (congrArg Command.code)
  · -- PUSH_BACK had gone to the end of the chain by then
    rw [conclude_error] at hmem
    obtain rfl := hcode hback
    have ha := isAllocated_of_push (m := m.announce .pushBack) (.inl rfl) hmem
    obtain ⟨L, T, h, l, hT, hmem, hh, hl⟩ := exists_ends hc ha
    have hchain : m.pool.chain h = L := hT.chain_eq_of_mem List.mem_cons_self hh
    refine ⟨h, hT.isHandle_iff.mpr ⟨L, List.mem_cons_self, hh⟩, hchain ▸ hmem, ?_⟩
    rw [hchain, hcursor, hl]
    change _ = some m.toLast.2.cursor
    rw [toLast_eq hT hl hmem]
  · -- and PUSH_FRONT to its root
    rw [conclude_error] at hmem
    obtain rfl := hcode hfront
    have ha := isAllocated_of_push (m := m.announce .pushFront) (.inr rfl) hmem
    obtain ⟨L, T, h, l, hT, hmem, hh, hl⟩ := exists_ends hc ha
    have hroot : (conclude ((m.announce .pushFront).perform .pushFront)).cursor = h := by
      rw [hcursor]
      change m.toRoot.2.cursor = h
      rw [toRoot_eq hT hh hmem]
    rw [hroot, hT.chain_eq_of_mem List.mem_cons_self hh]
    exact ⟨hT.isHandle_iff.mpr ⟨L, List.mem_cons_self, hh⟩, hmem⟩

/-- An unknown code is refused. -/
theorem refused_unknown (m : Mmu n) {code : Byte} (hcode : Command.ofCode? code = none) :
    Refused m code (conclude (.invalid, m.setCommand code)) where
  pool_eq := rfl
  windows_eq := rfl
  arg1_eq := rfl
  arg2_eq := rfl
  cursor_eq := fun _ => rfl
  cursor_pushBack := fun hback => absurd hcode (by rw [hback, ofCode?_code]; simp)
  cursor_pushFront := fun hfront => absurd hcode (by rw [hfront, ofCode?_code]; simp)

/-- The unit may be told of the outcome, and what announced the command forgotten. -/
theorem Exhausted.conclude {m' : Mmu n} (hx : Exhausted (m.announce command) m') :
    Exhausted m (conclude (.alloc, m')) :=
  ⟨hx.kept, hx.chain, hx.freeCount_eq, hx.windows_eq, hx.arg2_eq, hx.cursor_eq⟩

/-- **Commands that fail keep the pool.** After any command, known or not, the error register says
how it ended. If it ended with an error other than `alloc` it has been refused, and if it ended
with `alloc` it has built a chain from all the nodes that were free. -/
theorem failed_commands_keep (hn : n < 65536) (hm : m.Reachable) (code : Byte) :
    Reported (m.run code) (m.outcome code) ∧
      (m.outcome code ≠ .none → m.outcome code ≠ .alloc → Refused m code (m.run code)) ∧
      (m.outcome code = .alloc → Exhausted m (m.run code)) := by
  obtain ⟨S, hS⟩ := hm.exists_chained hn
  refine ⟨m.reported_run code, ?_⟩
  unfold outcome run
  cases hcode : Command.ofCode? code with
  -- a code that is no command
  | none => exact ⟨fun _ _ => m.refused_unknown hcode, fun he => absurd he (by simp)⟩
  | some command =>
    obtain rfl : command.code = code := by
      have hfound := List.find?_some hcode
      exact beq_iff_eq.mp hfound
    refine ⟨fun he hk => refused_perform hS he hk, fun he => ?_⟩
    dsimp only at he ⊢
    -- out of nodes: the command was an allocation, whose partial chain stays
    obtain ⟨count, template, hact⟩ := perform_eq_of_alloc he
    have he' : ((m.announce command).allocateChain count template).1 = .alloc := hact ▸ he
    have hx := exhausted_allocateChain (m := m.announce command) hn hS he'
    rw [← hact] at hx
    change Exhausted m (conclude ((m.announce command).perform command))
    generalize (m.announce command).perform command = x at he hx ⊢
    obtain ⟨e, m'⟩ := x
    obtain rfl : e = .alloc := he
    exact hx.conclude

/-- The small unit, about to be asked for more nodes than are free. -/
def greedyRequests : List Request := sampleRequests ++ [.setCursor 0, .setArg1 200]

/-- The unit that is about to serve that allocation. -/
def greedyUnit : Mmu 6 := (initial six_pos).serveAll greedyRequests

/-- The small unit after that allocation. Its cursor is on the first of two nodes. -/
def fullRequests : List Request := greedyRequests ++ [.command Command.alloc.code]

/-- The unit that has served it and has no free node left. -/
def fullUnit : Mmu 6 := (initial six_pos).serveAll fullRequests

/-- The allocation that fills the unit, and then a push, which moves the cursor to node 2. -/
theorem failed_commands_keep_sample :
    Exhausted greedyUnit (greedyUnit.run Command.alloc.code) ∧
      Refused fullUnit Command.pushBack.code (fullUnit.run Command.pushBack.code) ∧
      (fullUnit.run Command.pushBack.code).cursor = 2 := by
  have hgreedy := (failed_commands_keep (m := greedyUnit) (by decide)
    ⟨by decide, greedyRequests, fun _ _ => trivial, rfl⟩ Command.alloc.code).2.2
  have hfull := (failed_commands_keep (m := fullUnit) (by decide)
    ⟨by decide, fullRequests, fun _ _ => trivial, rfl⟩ Command.pushBack.code).2.1
  exact ⟨hgreedy (by decide +kernel), hfull (by decide +kernel) (by decide +kernel),
    by decide +kernel⟩

end Refusals

end Mmu

end Machine6809
