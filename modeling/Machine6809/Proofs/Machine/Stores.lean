import Machine6809.Proofs.Cpu.Stores
import Machine6809.Proofs.Machine.Locating
import Machine6809.Proofs.Machine.Returning
import Machine6809.Proofs.Machine.Simulation
import Mathlib.Data.Nat.Notation

/-!
# What an instruction and an interrupt store

To say which bytes the machine stores its memory is watched (`Machine.watched`), and since a machine
that is watched does the same as before, the stores seen are those of the machine itself.

Fetching, locating the operand, pulling and changing the processor store nothing (`Storeless`), so
all stores of an instruction are made by its operation. What an operation stores depends on the
address of its operand, the byte there and the registers, and there is one lemma for each operation
that stores anything. An interrupt stores its frame and nothing else.
-/

namespace Machine6809

/-- The byte store that an access is, if it is one. -/
def MemoryAccess.store? : MemoryAccess → Option ByteStore
  | .load _ => none
  | .store address value => some { address, value }

namespace Machine

/-! ### What stores nothing -/

section Storeless

variable {μ : Type}

/-- The stores made so far, the first one first. -/
def stores (m : Machine (Watched μ)) : List ByteStore :=
  m.memory.accesses.filterMap MemoryAccess.store?

/-- The action stores nothing. -/
def Storeless {α : Type} (x : Exec (Watched μ) α) : Prop :=
  ∀ m : Machine (Watched μ), (m.after x).stores = m.stores

variable {α β : Type} {x y : Exec (Watched μ) α} {f : α → Exec (Watched μ) β}

theorem Storeless.pure (a : α) : Storeless (pure a : Exec (Watched μ) α) := fun _ => rfl

theorem Storeless.bind (hx : Storeless x) (hf : ∀ a, Storeless (f a)) : Storeless (x >>= f) :=
  fun m => (hf _ _).trans (hx m)

theorem Storeless.ite {c : Prop} [Decidable c] (hx : Storeless x) (hy : Storeless y) :
    Storeless (if c then x else y) := by
  split_ifs
  · exact hx
  · exact hy

theorem storeless_registers : Storeless (registers : Exec (Watched μ) Registers) := fun _ => rfl

theorem storeless_modifyCpu (g : Cpu → Cpu) : Storeless (modifyCpu g : Exec (Watched μ) Unit) :=
  fun _ => rfl

theorem storeless_branchTo (condition : Condition) (address : Word) :
    Storeless (branchTo condition address : Exec (Watched μ) Bool) :=
  .bind storeless_registers fun _ =>
    .ite (.bind (storeless_modifyCpu _) fun _ => .pure true) (.pure false)

theorem storeless_transferFrom (code : ℕ) :
    Storeless (transferFrom code : Exec (Watched μ) Word) :=
  .bind storeless_registers fun _ => .pure _

theorem storeless_transferTo (code : ℕ) (value : Word) :
    Storeless (transferTo code value : Exec (Watched μ) Unit) := by
  unfold transferTo
  split
  · exact storeless_modifyCpu _
  · exact storeless_modifyCpu _

theorem storeless_formAddress (base : RegisterName) (form : IndexedForm) (operand : Word) :
    Storeless (formAddress base form operand : Exec (Watched μ) Word) := by
  refine .bind storeless_registers fun r => ?_
  cases form with
  | postIncrement step | preDecrement step =>
    exact .bind (storeless_modifyCpu _) fun _ => .pure _
  | _ => exact .pure _

theorem storeless_noteExecuted (start : Word) (mnemonic : String) (bytes : List Byte) :
    Storeless (noteExecuted start mnemonic bytes : Exec (Watched μ) Unit) :=
  storeless_modifyCpu _

variable [Memory μ]

/-- A load is an access, but not a store. -/
theorem storeless_load (address : Word) : Storeless (load address : Exec (Watched μ) Byte) := by
  intro m
  show (m.memory.accesses ++ [MemoryAccess.load address]).filterMap MemoryAccess.store? = m.stores
  rw [List.filterMap_append]
  exact List.append_nil _

/-- Fetching stores nothing. -/
theorem fetching_storeless : Fetching fun m m' : Machine (Watched μ) => m'.stores = m.stores where
  refl _ := rfl
  trans _ _ _ h h' := h'.trans h
  load := storeless_load
  goto _ := storeless_modifyCpu _

theorem storeless_loadWord (address : Word) :
    Storeless (loadWord address : Exec (Watched μ) Word) :=
  fetching_storeless.loadWord address

theorem storeless_gotoVector (vector : Word) :
    Storeless (gotoVector vector : Exec (Watched μ) Unit) :=
  fetching_storeless.gotoVector vector

theorem storeless_fetchOpcode :
    Storeless (fetchOpcode : Exec (Watched μ) (Word × List Byte)) :=
  fetching_storeless.fetchOpcode

/-- Operands are found without a store. -/
theorem storeless_resolve (mode : AddressingMode) (code start : Word) :
    Storeless (resolve mode code start : Exec (Watched μ) (Except Fault Located)) :=
  fetching_storeless.resolve code start fun _ _ operand word _ =>
    storeless_formAddress operand.base operand.form word

theorem storeless_pullByte (stack : Stack) :
    Storeless (pullByte stack : Exec (Watched μ) Byte) :=
  .bind storeless_registers fun _ => .bind (storeless_load _) fun _ =>
    .bind (storeless_modifyCpu _) fun _ => .pure _

theorem storeless_pullWord (stack : Stack) :
    Storeless (pullWord stack : Exec (Watched μ) Word) :=
  .bind (storeless_pullByte stack) fun _ => .bind (storeless_pullByte stack) fun _ => .pure _

theorem storeless_pullRegister (stack : Stack) (name : RegisterName) :
    Storeless (pullRegister stack name : Exec (Watched μ) ℕ) := by
  refine .ite ?byte ?word
  case byte =>
    exact .bind (storeless_pullByte stack) fun _ => .bind (storeless_modifyCpu _) fun _ => .pure 1
  case word =>
    exact .bind (storeless_pullWord stack) fun _ => .bind (storeless_modifyCpu _) fun _ => .pure 2

theorem storeless_pullFrame (stack : Stack) (list : Byte) :
    Storeless (pullFrame stack list : Exec (Watched μ) ℕ) := by
  unfold pullFrame
  generalize stack.selected list = names
  induction names with
  | nil => exact .pure 0
  | cons name names ih =>
    exact .bind (storeless_pullRegister stack name) fun _ => .bind ih fun _ => .pure _

/-- Leaving an interrupt only pulls, so it stores nothing. -/
theorem storeless_returnFromInterrupt :
    Storeless (returnFromInterrupt : Exec (Watched μ) ℕ) := by
  have rest (n : ℕ) : Storeless (pullFrame .system 0x80 >>= fun _ => pure n : Exec (Watched μ) ℕ) :=
    .bind (storeless_pullFrame .system 0x80) fun _ => .pure n
  refine .bind (storeless_pullFrame .system 0x01) fun _ => .bind storeless_registers fun _ => ?_
  exact .ite (.bind (storeless_pullFrame .system 0x7E) fun _ => rest _) (rest _)

/-! ### Operations that store nothing -/

/-- An operation that is not listed with stores stores nothing. -/
theorem storeless_perform {operation : Operation} (h : operation.stores = false)
    (address : Word) : Storeless (perform operation address : Exec (Watched μ) ℕ) := by
  have zero : Storeless (pure 0 : Exec (Watched μ) ℕ) := .pure 0
  -- a change to the processor is the last thing that most of these operations do
  have change (g : Cpu → Cpu) : Storeless (modifyCpu g >>= fun _ => pure 0 : Exec (Watched μ) ℕ) :=
    .bind (storeless_modifyCpu g) fun _ => zero
  cases operation with
  | binary op acc =>
    exact .bind (storeless_load address) fun _ => .bind storeless_registers fun _ => change _
  | modify op =>
    -- TST is the only one that stores nothing
    obtain rfl : op = .tst := by simpa [Operation.stores] using h
    exact .bind (storeless_load address) fun _ => .bind storeless_registers fun _ => change _
  | loadWord name =>
    exact .bind (storeless_loadWord address) fun _ => .bind storeless_registers fun _ =>
      .bind (storeless_modifyCpu _) fun _ => change _
  | compareWord name =>
    exact .bind (storeless_loadWord address) fun _ => .bind storeless_registers fun _ => change _
  | addD | subD => exact .bind (storeless_loadWord address) fun _ => change _
  | lea name => exact .ite (.bind (storeless_modifyCpu _) fun _ => change _) (change _)
  | branch condition => exact .bind (storeless_branchTo condition address) fun _ => zero
  | longBranch condition => exact .bind (storeless_branchTo condition address) fun _ => .pure _
  | «return» => exact .bind (storeless_pullWord .system) fun _ => zero
  | pull stack => exact .bind (storeless_load address) fun _ => storeless_pullFrame stack _
  | transfer =>
    exact .bind (storeless_load address) fun _ => .bind (storeless_transferFrom _) fun _ =>
      .bind (storeless_transferTo _ _) fun _ => zero
  | exchange =>
    exact .bind (storeless_load address) fun _ => .bind (storeless_transferFrom _) fun _ =>
      .bind (storeless_transferFrom _) fun _ => .bind (storeless_transferTo _ _) fun _ =>
      .bind (storeless_transferTo _ _) fun _ => zero
  | orCC | andCC =>
    exact .bind (storeless_load address) fun _ => .bind storeless_registers fun _ => change _
  | rti => exact storeless_returnFromInterrupt
  | nop | jump => exact fun _ => rfl
  | modifyAcc | sync | mul | sex | daa | abx => exact change _
  -- these store
  | store | storeWord | call | push | cwai | swi => exact nomatch h

end Storeless

/-! ### Pushing -/

section Pushing

variable {μ : Type} [Memory μ]

/-- Going to a vector leaves the stack pointers alone. -/
theorem top_after_gotoVector (stack : Stack) (vector : Word) (m : Machine μ) :
    (m.after (gotoVector vector)).top stack = m.top stack := by
  obtain ⟨pc, hpc⟩ := fetching_pc.gotoVector vector m
  rw [top, hpc]
  cases stack <;> rfl

variable {m m' m₁ m₂ : Machine (Watched μ)} {stack : Stack} {bytes : List Byte}

/-- A store is seen as what it is. -/
theorem stores_store (address : Word) (value : Byte) (m : Machine (Watched μ)) :
    (m.after (store address value)).stores = m.stores ++ [⟨address, value⟩] := by
  show (m.memory.accesses ++ [MemoryAccess.store address value]).filterMap
    MemoryAccess.store? = _
  rw [List.filterMap_append]
  rfl

/-- From `m` to `m'` bytes are pushed on a stack, the first one first. -/
structure Pushes (stack : Stack) (bytes : List Byte) (m m' : Machine (Watched μ)) : Prop where
  stores : m'.stores = m.stores ++ descending (m.top stack) bytes
  pointer : m'.top stack = m.top stack - UInt16.ofNat bytes.length

omit [Memory μ] in
/-- At either end the stack pointer and the stores are all that matters. -/
theorem Pushes.congr (h : Pushes stack bytes m₁ m₂)
    (top₁ : m₁.top stack = m.top stack) (stores₁ : m₁.stores = m.stores)
    (top₂ : m'.top stack = m₂.top stack) (stores₂ : m'.stores = m₂.stores) :
    Pushes stack bytes m m' := by
  constructor
  · rw [stores₂, h.stores, stores₁, top₁]
  · rw [top₂, h.pointer, top₁]

omit [Memory μ] in
/-- Beginning without stores, what was pushed is all that was stored. -/
theorem Pushes.pushed (h : Pushes stack bytes m m') (start : m.stores = []) {n : ℕ}
    (count : bytes.length = n) : Pushed n bytes (m.top stack) (m'.top stack) m'.stores := by
  have made : m'.stores = descending (m.top stack) bytes := by
    rw [h.stores, start, List.nil_append]
  refine ⟨count, made, ?_⟩
  rw [made, getLastD_descending, h.pointer]

/-- A byte is stored below the old top of the stack. -/
theorem stores_pushByte (stack : Stack) (byte : Byte) (m : Machine (Watched μ)) :
    (m.after (pushByte stack byte)).stores = m.stores ++ [⟨m.top stack - 1, byte⟩] := by
  simp only [pushByte, after_bind, after_registers, gives_registers, stores_store]
  rfl

/-- And there is the new top. -/
theorem top_pushByte (stack : Stack) (byte : Byte) (m : Machine (Watched μ)) :
    (m.after (pushByte stack byte)).top stack = m.top stack - 1 := by
  have moved : (m.withTop stack (m.top stack - 1)).top stack = m.top stack - 1 :=
    top_withTop (m.top stack - 1)
  show ((m.withTop stack (m.top stack - 1)).after (store (m.top stack - 1) byte)).top stack = _
  rw [top, registers_store]
  exact moved

/-- Bytes are stored one below the other. -/
theorem pushes_pushBytes (stack : Stack) (bytes : List Byte) (m : Machine (Watched μ)) :
    Pushes stack bytes m (m.after (pushBytes stack bytes)) := by
  -- byte by byte; the rest is pushed from the new top downward
  induction bytes generalizing m with
  | nil => exact ⟨(List.append_nil _).symm, by simp [pushBytes]⟩
  | cons byte bytes ih =>
    obtain ⟨stores, pointer⟩ := ih (m.after (pushByte stack byte))
    have next : m.after (pushBytes stack (byte :: bytes))
        = (m.after (pushByte stack byte)).after (pushBytes stack bytes) := rfl
    constructor
    · rw [next, stores, stores_pushByte, top_pushByte, List.append_assoc, descending_cons]
      rfl
    · rw [next, pointer, top_pushByte, List.length_cons, sub_succ_ofNat]

/-- The bytes of a frame are pushed from its end. -/
theorem pushes_pushFrame (stack : Stack) (list : Byte) (m : Machine (Watched μ)) :
    Pushes stack (m.cpu.registers.frame stack list).reverse m (m.after (pushFrame stack list)) :=
  pushes_pushBytes stack _ m

/-- The frame of the whole state has E set in the codes. -/
theorem pushes_pushEntireState (m : Machine (Watched μ)) :
    Pushes .system (m.cpu.registers.entireFrame m.cpu.registers.cc) m
      (m.after pushEntireState) := by
  have h := pushes_pushFrame .system entireState (m.after (modifyRegisters fun r =>
    { r with cc := { r.cc with e := true } }))
  rw [pushEntireState, after_bind, after_bind, after_pure]
  exact h.congr rfl rfl rfl rfl

/-! ### Operations that store -/

/-- An operation on a memory byte stores its result there. TST has none. -/
theorem stores_modify {op : UnaryOp} (h : op ≠ .tst) (address : Word) (m : Machine (Watched μ)) :
    (m.after (perform (.modify op) address)).stores = m.stores ++
      [⟨address, (op.apply (m.gives (load address)) m.cpu.registers.cc).1⟩] := by
  simp only [perform, after_bind, if_neg h, after_pure, gives_registers, after_registers,
    registers_load]
  show ((m.after (load address)).after (store address _)).stores = _
  rw [stores_store, storeless_load address m]

/-- Storing an accumulator stores one byte. -/
theorem stores_storeByte (acc : Accumulator) (address : Word) (m : Machine (Watched μ)) :
    (m.after (perform (.store acc) address)).stores = m.stores ++
      [⟨address, acc.get m.cpu.registers⟩] :=
  stores_store address _ m

/-- Storing a word register stores two, the high one first. -/
theorem stores_storeWord (name : RegisterName) (address : Word) (m : Machine (Watched μ)) :
    (m.after (perform (.storeWord name) address)).stores = m.stores ++
      [⟨address, highByte (m.cpu.registers.read name)⟩,
        ⟨address + 1, lowByte (m.cpu.registers.read name)⟩] := by
  have high := stores_store address (highByte (m.cpu.registers.read name)) m
  refine (stores_store (address + 1) _ (m.after (store address _))).trans ?_
  rw [high, List.append_assoc]
  rfl

/-- A call pushes PC. -/
theorem pushes_call (address : Word) (m : Machine (Watched μ)) :
    Pushes .system [lowByte m.cpu.registers.pc, highByte m.cpu.registers.pc] m
      (m.after (perform .call address)) := by
  have h := pushes_pushFrame .system 0x80 m
  rw [after_pushFrame_word (by decide : Stack.system.selected 0x80 = [.pc]) rfl] at h
  simp only [perform, after_bind, after_pure]
  exact h.congr rfl rfl rfl rfl

/-- A push instruction pushes the registers of its list. -/
theorem pushes_push (stack : Stack) (address : Word) (m : Machine (Watched μ)) :
    Pushes stack (m.cpu.registers.frame stack (m.gives (load address))).reverse m
      (m.after (perform (.push stack) address)) := by
  have h := pushes_pushFrame stack (m.gives (load address)) (m.after (load address))
  rw [registers_load] at h
  simp only [perform, after_bind]
  refine h.congr ?_ (storeless_load address m) rfl rfl
  rw [top, registers_load]
  rfl

/-- CWAI pushes the whole state, with the codes that it has cleared. -/
theorem pushes_cwai (address : Word) (m : Machine (Watched μ)) :
    Pushes .system (m.cpu.registers.entireFrame
        (m.cpu.registers.cc.and (Flags.ofByte (m.gives (load address))))) m
      (m.after (perform .cwai address)) := by
  -- the operand is loaded first, which touches neither S nor the stores
  have registers := registers_load address m
  have stores := storeless_load address m
  simp only [perform, after_bind, after_pure, gives_registers, after_registers]
  generalize m.after (load address) = m₁ at registers stores ⊢
  rw [← registers]
  have h := pushes_pushEntireState
    (m₁.after (setFlags (m₁.cpu.registers.cc.and (Flags.ofByte (m.gives (load address))))))
  generalize (m₁.after (setFlags _)).after pushEntireState = m₂ at h ⊢
  have pointer : m₁.top .system = m.top .system := congrArg Registers.s registers
  exact h.congr pointer stores rfl rfl

/-- A software interrupt pushes the whole state. -/
theorem pushes_swi (vector : Word) (masks : Bool) (address : Word) (m : Machine (Watched μ)) :
    Pushes .system (m.cpu.registers.entireFrame m.cpu.registers.cc) m
      (m.after (perform (.swi vector masks) address)) := by
  have h := pushes_pushEntireState m
  simp only [perform, after_bind, after_ite, after_pure]
  generalize m.after pushEntireState = m₁ at h ⊢
  -- with the frame pushed, what is left to do moves PC and perhaps sets the masks
  split_ifs
  · exact h.congr rfl rfl (top_after_gotoVector .system vector _) (storeless_gotoVector vector _)
  · exact h.congr rfl rfl (top_after_gotoVector .system vector _) (storeless_gotoVector vector _)

/-- An interrupt pushes the frame that its source asks for. -/
theorem pushes_enterInterrupt (source : InterruptSource) (m : Machine (Watched μ)) :
    Pushes .system ((Entry.interrupt source).frame m.cpu.registers).reverse m
      (m.after (enterInterrupt source false)) := by
  -- a message and the latch of NMI come before the frame, the masks and the vector after it
  have around (m₁ : Machine (Watched μ)) (registers : m₁.cpu.registers = m.cpu.registers)
      (stores : m₁.stores = m.stores) :
      Pushes .system ((Entry.interrupt source).frame m.cpu.registers).reverse m
        (((m₁.after (pushInterruptFrame source)).after maskInterrupts).after
          (gotoVector source.vector)) := by
    have h : Pushes .system ((Entry.interrupt source).frame m.cpu.registers).reverse m₁
        (m₁.after (pushInterruptFrame source)) := by
      rw [Entry.frame, Entry.saved_interrupt, ← registers]
      cases source with
      -- FIRQ saves only CC and PC, with E clear
      | firq =>
        rw [pushInterruptFrame, after_bind, after_bind, after_pure]
        have pushed := pushes_pushFrame .system returnState
          (m₁.after (modifyRegisters fun r => { r with cc := { r.cc with e := false } }))
        exact pushed.congr rfl rfl rfl rfl
      -- NMI and IRQ save the entire state
      | nmi | irq => exact pushes_pushEntireState m₁
    generalize m₁.after (pushInterruptFrame source) = m₂ at h ⊢
    exact h.congr (congrArg Registers.s registers) stores
      (top_after_gotoVector .system source.vector _) (storeless_gotoVector source.vector _)
  simp only [enterInterrupt, after_bind, after_registers, gives_registers, after_ite,
    Bool.not_false, if_true]
  split_ifs
  · exact around _ rfl rfl
  · exact around _ rfl rfl

/-- An interrupt that ends CWAI finds its frame on the stack. -/
theorem storeless_wake (source : InterruptSource) :
    Storeless (enterInterrupt source true : Exec (Watched μ) Unit) := by
  refine .bind storeless_registers fun r => .bind (storeless_modifyCpu _) fun _ => ?_
  have rest : Storeless (maskInterrupts >>= fun _ => gotoVector source.vector :
      Exec (Watched μ) Unit) :=
    .bind (storeless_modifyCpu _) fun _ => storeless_gotoVector _
  cases source with
  | nmi => exact .bind (storeless_modifyCpu _) fun _ => rest
  | firq | irq => exact rest

end Pushing

/-! ### Instructions -/

section Instructions

variable {μ : Type}

/-- The operation of a row makes the stores that are listed for its mnemonic. -/
theorem stored_perform [Memory μ] {row : Instruction} (hrow : row ∈ OpcodeMap.rows)
    (address : Word) {m : Machine (Watched μ)} (start : m.stores = []) :
    row.Stored address (m.gives (load address)) m.cpu.registers
      (m.after (perform row.operation address)).cpu.registers
      (m.after (perform row.operation address)).stores := by
  obtain ⟨result, byte, word, push, call, swi, cwai, nothing⟩ := Instruction.rows_storing row hrow
  constructor
  case result =>
    intro op hop
    -- all modifiers but TST write
    have writes : ∀ p ∈ Instruction.modifiers, p.2 ≠ .tst := by decide
    rw [result _ hop rfl, stores_modify (writes _ hop), start, List.nil_append]
  case byte =>
    intro acc hacc
    rw [byte _ hacc rfl, stores_storeByte, start, List.nil_append]
  case word =>
    intro name hname
    rw [word _ hname rfl, stores_storeWord, start, List.nil_append]
  case push =>
    intro stack hstack
    rw [push _ hstack rfl]
    refine (pushes_push stack address m).pushed start ?_
    rw [List.length_reverse, length_frame_listed]
  case call =>
    intro h
    rw [call h]
    exact (pushes_call address m).pushed start rfl
  case swi =>
    intro h
    -- the vector and the masks make no difference here
    have pushed : ∀ vector masks, row.operation = .swi vector masks →
        Pushed 12 (m.cpu.registers.entireFrame m.cpu.registers.cc) m.cpu.registers.s
          (m.after (perform row.operation address)).cpu.registers.s
          (m.after (perform row.operation address)).stores := by
      rintro vector masks hop
      rw [hop]
      exact (pushes_swi vector masks address m).pushed start rfl
    rcases List.mem_cons.mp (swi h) with hop | hop
    · exact pushed _ _ hop
    rcases List.mem_cons.mp hop with hop | hop
    · exact pushed _ _ hop
    · exact pushed _ _ (List.mem_singleton.mp hop)
  case cwai =>
    intro h
    rw [cwai h]
    exact (pushes_cwai address m).pushed start rfl
  case nothing =>
    intro h
    rw [storeless_perform (nothing h) address m, start]

variable [Memory μ]

/-- The stores are those that are listed for the instruction at PC, which has left the registers
`r'`. They go by the registers with the operand located, which are those from before the instruction
but for PC and what an indexed operand moves. -/
def StoresListed (m : Machine μ) (r' : Registers) (stores : List ByteStore) : Prop :=
  ∃ row operand, OpcodeMap.lookup? (m.gives fetchOpcode).1 = some row ∧
    m.opened.gives (resolve row.mode row.code m.cpu.registers.pc) = .ok operand ∧
    (row.mode ≠ .indexed → ∃ pc, (m.located row).cpu.registers = { m.cpu.registers with pc }) ∧
    row.Stored operand.address ((m.located row).gives (load operand.address))
      (m.located row).cpu.registers r' stores

/-- The stores that the instruction at PC makes, the first one first. -/
def instructionStores (m : Machine μ) : List ByteStore := (m.watched.after executeNext).stores

/-- The stores that are made as something happens, the first one first. -/
def eventStores (m : Machine μ) (e : Event) : List ByteStore := (m.watched.happen e).stores

/-- Nothing is stored until the operand is located. -/
theorem stores_located {m : Machine (Watched μ)} (start : m.stores = []) (row : Instruction) :
    (m.located row).stores = [] := by
  rw [located, storeless_resolve, opened, storeless_modifyCpu, storeless_fetchOpcode, start]

/-- An instruction that succeeds on a watched machine has made its stores and no others. -/
theorem storesListed_watched {m : Machine (Watched μ)} {used : ℕ} (start : m.stores = [])
    (h : m.gives executeNext = .ok used) :
    m.StoresListed (m.after executeNext).cpu.registers (m.after executeNext).stores := by
  obtain ⟨row, operand, locates⟩ := exists_locates h
  -- nothing is stored before the operation and nothing after it
  refine ⟨row, operand, locates.lookup, locates.resolved, registers_located, ?_⟩
  rw [locates.after, registers_noteExecuted, storeless_noteExecuted]
  exact stored_perform locates.row_mem operand.address (stores_located start row)

/-- What is listed for a machine that is watched is listed for the machine. -/
theorem StoresListed.unwatched {m : Machine μ} {r' : Registers} {stores : List ByteStore}
    (h : m.watched.StoresListed r' stores) : m.StoresListed r' stores := by
  obtain ⟨row, operand, lookup, hoperand, -, stored⟩ := h
  have locates := locates_watched.mp ⟨lookup, hoperand⟩
  -- watching a machine does not change what it does
  have frame := frame_relates (answering_watched (μ := μ))
  have located := (relates_located m row).2
  have byte := (frame.load operand.address _ _ located).1
  have registers := (frame.read_eq located).1
  refine ⟨row, operand, locates.lookup, locates.resolved, registers_located, ?_⟩
  rw [byte, registers]
  exact stored

/-- So it has on a machine that is not watched. -/
theorem storesListed_executeNext {m : Machine μ} {used : ℕ} (h : m.gives executeNext = .ok used) :
    m.StoresListed (m.after executeNext).cpu.registers m.instructionStores := by
  have frame := frame_relates (answering_watched (μ := μ))
  obtain ⟨gives, after⟩ := frame.executeNext arms_relates visits_relates m m.watched ⟨rfl, rfl⟩
  have listed := storesListed_watched (m := m.watched) rfl (gives.symm.trans h)
  rw [(frame.read_eq after).1]
  exact listed.unwatched

/-! ### Events -/

variable {m : Machine μ} {e : Event}

/-- The stores of an event are those of its work. -/
theorem eventStores_of_works (works : m.Works e) :
    m.eventStores e = (m.started.watched.after work).stores := by
  have watched : m.watched.Works e := by cases e <;> exact works
  obtain hfailed | ⟨used, hdone⟩ := happen_of_works watched
  · rw [eventStores, hfailed]
    rfl
  · rw [eventStores, hdone]
    rfl

/-- The stores that the acceptance of an interrupt makes: its frame is pushed, unless CWAI has
pushed it before. Afterwards the registers are `r'`. -/
structure EntryStored (source : InterruptSource) (m : Machine μ) (r' : Registers)
    (stores : List ByteStore) : Prop where
  pushed : m.cpu.wait ≠ .cwai → Pushed (if source = .firq then 3 else 12)
    ((Entry.interrupt source).frame m.cpu.registers).reverse m.cpu.registers.s r'.s stores
  nothing : m.cpu.wait = .cwai → stores = []

/-- Entering an interrupt stores its frame, or nothing if CWAI has stored it before. -/
theorem entryStored_work {source : InterruptSource}
    (accepted : m.cpu.lines.accepted m.cpu.registers.cc = some source) :
    EntryStored source m (m.after work).cpu.registers (m.watched.after work).stores := by
  -- watching changes nothing about the registers
  have frame := frame_relates (answering_watched (μ := μ))
  have after :=
    (frame.work arms_relates unlatches_relates visits_relates m m.watched ⟨rfl, rfl⟩).2
  rw [(frame.read_eq after).1]
  constructor
  case pushed =>
    intro hw
    have pushes := pushes_enterInterrupt source m.awake.watched
    rw [(work_of_accepted (m := m.watched) hw accepted).1]
    refine pushes.pushed rfl ?_
    rw [List.length_reverse, length_frame]
    cases source <;> rfl
  -- a wake from CWAI finds its frame on the stack
  case nothing =>
    intro hw
    rw [(work_of_wake (m := m.watched) hw accepted).1]
    exact storeless_wake source m.awake.watched

/-- **What is stored, and by which instruction.** Whatever the processor and its memory hold, an
instruction that is executed makes the stores that `Instruction.Stored` lists for its mnemonic, in
this order and no others. So does the tick or the step that executes it. One that accepts an
interrupt pushes its frame, or stores nothing when it ends CWAI. -/
theorem stores_exact (m : Machine μ) :
    (∀ used, m.gives executeNext = .ok used →
        m.StoresListed (m.after executeNext).cpu.registers m.instructionStores) ∧
      ∀ e, m.Works e →
        (∀ used, m.started.Executes → m.started.awake.gives executeNext = .ok used →
          m.started.awake.StoresListed (m.happen e).cpu.registers (m.eventStores e)) ∧
        ∀ source, m.started.cpu.lines.accepted m.started.cpu.registers.cc = some source →
          EntryStored source m.started (m.happen e).cpu.registers (m.eventStores e) := by
  refine ⟨fun _ => storesListed_executeNext, fun e works => ⟨?_, ?_⟩⟩
  · -- the work of the event is that instruction
    intro used executes success
    have watched : m.started.watched.after work = m.started.awake.watched.after executeNext :=
      (work_of_executes (m := m.started.watched) executes).1
    rw [eventStores_of_works works, watched, (cpu_of_works works).1, (work_of_executes executes).1]
    exact storesListed_executeNext success
  · -- or it is that entry
    intro source accepted
    rw [eventStores_of_works works, (cpu_of_works works).1]
    exact entryStored_work accepted

/-- A machine about to push A and B from the end of memory downward. -/
def pushing : Machine Ram :=
  let m := ofMemory { contents := #[0x34, 0x06] }
  { m with cpu := m.cpu.setRegister .d 0x0102 }

/-- The same machine with FIRQ asserted. -/
def pushingInterrupted : Machine Ram := pushing.happen (.firq true)

/-- Two bytes are pushed from the end of memory downward, and with FIRQ a frame of three is. -/
theorem stores_exact_pushing :
    pushing.StoresListed (pushing.after executeNext).cpu.registers pushing.instructionStores ∧
      pushing.started.awake.StoresListed (pushing.happen .step).cpu.registers
        (pushing.eventStores .step) ∧
      pushing.eventStores .step = [⟨0xFFFF, 0x02⟩, ⟨0xFFFE, 0x01⟩] ∧
      EntryStored .firq pushingInterrupted.started (pushingInterrupted.happen .step).cpu.registers
        (pushingInterrupted.eventStores .step) ∧
      pushingInterrupted.eventStores .step = [⟨0xFFFF, 0x00⟩, ⟨0xFFFE, 0x00⟩, ⟨0xFFFD, 0x00⟩] := by
  refine ⟨(stores_exact pushing).1 7 rfl, ?_, rfl, ?_, rfl⟩
  · exact ((stores_exact pushing).2 .step trivial).1 7 ⟨rfl, .inl rfl⟩ rfl
  · exact ((stores_exact pushingInterrupted).2 .step trivial).2 .firq rfl

end Instructions

end Machine

end Machine6809
