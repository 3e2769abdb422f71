import Machine6809.Proofs.Mmu.Runs

/-!
# The command register

Besides the pool and what it shows of it, the unit has two things of its own: the register for the
command that is under way, and the latches of the word registers. They are the front of the unit
(`Mmu.front`). Calls and commands work behind it, and the only one that touches it is a reset, which
clears all (`front_perform`).

So the register holds the code of a command for as long as that is under way
(`command_perform`), and nobody who reads it finds anything there
(`Reachable.readRegister_command`).
-/

namespace Machine6809

namespace Mmu

variable {n : ℕ} {m : Mmu n}

/-- What the unit keeps for the register block alone: the command that is under way and the high
bytes that wait for their low ones. -/
def front (m : Mmu n) : Byte × Vector Byte 32 := (m.command, m.latch)

/-! ### Calls -/

/-- An action that may fail leaves the front alone if it does so when it succeeds. -/
theorem front_settle {x : Except MmuError (Mmu n)} (h : ∀ m', x = .ok m' → m'.front = m.front) :
    (m.settle x).front = m.front := by
  cases x with
  | ok m' => exact h m' rfl
  | error e => rfl

/-- So it is when the failure is recorded. -/
theorem front_settleOrFail {x : Except MmuError (Mmu n)}
    (h : ∀ m', x = .ok m' → m'.front = m.front) : (m.settleOrFail x).front = m.front := by
  cases x with
  | ok m' => exact h m' rfl
  | error e => rfl

/-- Setting the cursor is such an action. -/
theorem front_of_setCursor {position : Word} {m' : Mmu n} (h : m.setCursor position = .ok m') :
    m'.front = m.front := by
  unfold setCursor at h
  split at h <;> cases h
  rfl

/-- Selecting what a window shows is another. -/
theorem front_of_select {w : ℕ} {handle : Option Word} {m' : Mmu n}
    (h : m.select w handle = .ok m') : m'.front = m.front := by
  unfold select at h
  split_ifs at h
  split at h
  · cases h
    rfl
  · split at h <;> cases h
    rfl

/-- Building a chain, whatever comes of it. -/
theorem front_allocate (m : Mmu n) (count : ℕ) (template : NodeStatus) :
    (m.allocate count template).2.front = m.front := by
  unfold allocate
  rw [onPool_eq]
  dsimp only
  split <;> rfl

/-- Freeing a chain, or refusing to. -/
theorem front_free (m : Mmu n) (position : Word) : (m.free position).2.front = m.front := by
  rcases free_cases m position with h | h | ⟨i, -, -, h⟩
  · rw [h]
  · rw [h]
  · rw [h]
    rfl

/-- Writing to a node, protected or not. -/
theorem front_writeNode (m : Mmu n) (i : Fin n) (offset : ℕ) (value : Byte) :
    (m.writeNode i offset value).2.front = m.front := by
  unfold writeNode
  split_ifs <;> rfl

/-- An access through a window may only record an error. -/
theorem front_readWindow (m : Mmu n) (w : ℕ) (offset : Word) :
    (m.readWindow w offset).2.front = m.front := by
  unfold readWindow
  split
  · rfl
  · split <;> rfl

theorem front_writeWindow (m : Mmu n) (w : ℕ) (offset : Word) (value : Byte) :
    (m.writeWindow w offset value).2.front = m.front := by
  unfold writeWindow
  split
  · rfl
  · split
    · exact m.front_writeNode _ _ _
    · rfl

/-- The position may lie outside the pool. -/
theorem front_writePayload (m : Mmu n) (position : Word) (offset : ℕ) (value : Byte) :
    (m.writePayload position offset value).2.front = m.front := by
  unfold writePayload
  split
  · exact m.front_writeNode _ _ _
  · rfl

/-- A word that takes effect does so behind the front. -/
theorem front_writeWord (m : Mmu n) (register : WordRegister) (offset value : Word) :
    (m.writeWord register offset value).front = m.front := by
  cases register with
  | window w => exact front_settleOrFail fun _ => front_of_select
  | cursor => exact front_settleOrFail fun _ => front_of_setCursor
  | _ => rfl

theorem front_writeCursorPayload (m : Mmu n) (i : ℕ) (value : Byte) :
    (m.writeCursorPayload i value).front = m.front := by
  unfold writeCursorPayload
  split_ifs
  · exact m.front_writeNode _ _ _
  · rfl

/-! ### Commands -/

/-- What is tried at the cursor leaves the front alone if it does so on an allocated node. -/
theorem front_atCursor {f : Fin n → Mmu n → MmuError × Mmu n}
    (h : (f m.cursor m).2.front = m.front) : (m.atCursor f).2.front = m.front := by
  unfold atCursor
  split_ifs
  · exact h
  · rfl

/-- Two commands in turn leave the front alone if each of them does. -/
theorem front_inTurn {first second : Mmu n → MmuError × Mmu n}
    (hfirst : (first m).2.front = m.front) (hsecond : ∀ m, (second m).2.front = m.front) :
    (m.inTurn first second).2.front = m.front := by
  unfold inTurn
  split
  · -- the first has succeeded, and the second goes on with its unit
    rename_i m' h
    rw [hsecond m']
    rw [h] at hfirst
    exact hfirst
  · -- the first has failed
    rename_i e m' h
    rw [h] at hfirst
    exact hfirst

theorem front_allocateChain (m : Mmu n) (count : ℕ) (template : NodeStatus) :
    (m.allocateChain count template).2.front = m.front := by
  have h := m.front_allocate count template
  unfold allocateChain
  generalize m.allocate count template = x at h ⊢
  obtain ⟨outcome, after⟩ := x
  cases outcome <;> exact h

theorem front_freeChain (m : Mmu n) : m.freeChain.2.front = m.front := by
  have h := m.front_free m.arg1
  unfold freeChain
  split <;> rename_i heq <;> (rw [heq] at h; exact h)

theorem front_toRoot (m : Mmu n) : m.toRoot.2.front = m.front := front_atCursor rfl

theorem front_toLast (m : Mmu n) : m.toLast.2.front = m.front := front_atCursor rfl

/-- Deleting a node moves the cursor and may rename what the windows show. -/
theorem front_deleteNode (m : Mmu n) : m.deleteNode.2.front = m.front := by
  refine front_atCursor ?_
  dsimp only
  split_ifs
  · rfl
  · split <;> rfl

/-- Inserting a node may do so too. -/
theorem front_insertBefore (m : Mmu n) : m.insertBefore.2.front = m.front := by
  refine front_atCursor ?_
  dsimp only
  split
  · rfl
  · split_ifs <;> rfl

theorem front_insertAfter (m : Mmu n) : m.insertAfter.2.front = m.front := by
  refine front_atCursor ?_
  dsimp only
  split <;> rfl

/-- **No command but a reset touches the front of the unit.** -/
theorem front_perform {command : Command} (h : command ≠ .reset) :
    (m.perform command).2.front = m.front := by
  cases command with
  -- only RESET clears the registers
  | reset => exact absurd rfl h
  | nop | lockNode | unlockNode | loadRoot | loadLast | defrag =>
    first | rfl | exact front_atCursor rfl
  | loadNext | loadPrev =>
    refine front_atCursor ?_
    split <;> rfl
  | pageAlloc | alloc => exact m.front_allocateChain _ _
  | free => exact m.front_freeChain
  | pageFree =>
    show m.freePage.2.front = m.front
    unfold freePage
    split
    · rfl
    · split_ifs
      · exact m.front_freeChain
      · rfl
  | deleteNode => exact m.front_deleteNode
  | insertBefore => exact m.front_insertBefore
  | insertAfter => exact m.front_insertAfter
  -- in two steps, of which neither does
  | pushBack => exact front_inTurn m.front_toLast front_insertAfter
  | pushFront => exact front_inTurn m.front_toRoot front_insertBefore
  | popBack => exact front_inTurn m.front_toLast front_deleteNode
  | popFront => exact front_inTurn m.front_toRoot front_deleteNode
  | size =>
    show m.measure.2.front = m.front
    unfold measure
    split <;> rfl

/-- While a command is under way its code is in the register. -/
theorem command_perform {command : Command} (h : command ≠ .reset) :
    ((m.announce command).perform command).2.command = command.code :=
  congrArg Prod.fst (front_perform h)

/-! ### Between requests -/

/-- A write to the register block leaves no command under way. -/
theorem command_writeRegister (idle : m.command = 0) (offset : Word) (value : Byte) :
    (m.writeRegister offset value).command = 0 := by
  unfold writeRegister
  cases RegisterByte.ofOffset offset.toNat with
  | command => exact conclude_command _
  | payload i => exact (congrArg Prod.fst (m.front_writeCursorPayload i value)).trans idle
  | word register low =>
    cases low with
    | false => exact idle
    | true => exact (congrArg Prod.fst (m.front_writeWord register _ _)).trans idle
  | _ => exact idle

/-- **One request.** When it has been answered no command is under way. -/
theorem command_serve (idle : m.command = 0) (r : Request) : (m.serve r).command = 0 := by
  -- all but commands and resets happen behind the front
  have behind {m' : Mmu n} (h : m'.front = m.front) : m'.command = 0 :=
    (congrArg Prod.fst h).trans idle
  cases r with
  | command code => exact conclude_command _
  | writeRegister offset value => exact command_writeRegister idle offset value
  | setCursor position => exact behind (front_settle fun _ => front_of_setCursor)
  | select w handle => exact behind (front_settle fun _ => front_of_select)
  | allocate count template => exact behind (m.front_allocate count template)
  | free position => exact behind (m.front_free position)
  | readWindow w offset => exact behind (m.front_readWindow w offset)
  | writeWindow w offset value => exact behind (m.front_writeWindow w offset value)
  | writePayload position offset value => exact behind (m.front_writePayload position offset value)
  | setArg1 _ | setArg2 _ => exact idle
  | reset => rfl

/-- **The command register is clear whenever it can be read**, whatever the unit has been asked for
before. -/
theorem Reachable.readRegister_command (hm : m.Reachable) : m.readRegister 0x0E = 0 :=
  ReachableBy.invariant (I := fun m => m.command = 0) hm (fun _ => rfl)
    fun _ r idle _ => command_serve idle r

end Mmu

end Machine6809
