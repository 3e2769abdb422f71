import Machine6809.Proofs.Cpu.Codes
import Machine6809.Proofs.Machine.Events
import Machine6809.Proofs.Machine.Executing
import Machine6809.Proofs.Machine.Locating
import Mathlib.Data.Nat.Notation

/-!
# What instructions do to the condition codes

Most of what an instruction does leaves the condition codes alone: all that it loads and stores,
moves on a stack or adds to PC (`Still`). What remains is one change, which depends on the codes as
they were, and stays within the scope of the operation (`leaves_perform`). Since the rest of an
instruction is still, that is also what the whole instruction does (`within_executeNext`).
-/

namespace Machine6809

namespace Machine

/-- The action does not change the condition codes. -/
def Still {μ α : Type} (x : Exec μ α) : Prop :=
  ∀ m : Machine μ, (m.after x).cpu.registers.cc = m.cpu.registers.cc

/-- Where the condition codes are `cc`, the action changes only those in `scope`. -/
def Leaves {μ α : Type} (scope cc : Flags) (x : Exec μ α) : Prop :=
  ∀ m : Machine μ, m.cpu.registers.cc = cc → scope.Within cc (m.after x).cpu.registers.cc

section Combining

variable {μ α β : Type} {x : Exec μ α} {f : α → Exec μ β} {scope cc cc' : Flags}

theorem Still.pure (a : α) : Still (pure a : Exec μ α) := fun _ => rfl

theorem Still.bind (hx : Still x) (hf : ∀ a, Still (f a)) : Still (x >>= f) :=
  fun m => (hf _ _).trans (hx m)

theorem Still.ite {y : Exec μ α} {c : Prop} [Decidable c] (hx : Still x) (hy : Still y) :
    Still (if c then x else y) := by
  split_ifs
  · exact hx
  · exact hy

theorem Leaves.ite {y : Exec μ α} {c : Prop} [Decidable c] (hx : Leaves scope cc x)
    (hy : Leaves scope cc y) : Leaves scope cc (if c then x else y) := by
  split_ifs
  · exact hx
  · exact hy

/-- What leaves all codes alone stays within any scope. -/
theorem Still.leaves (hx : Still x) (scope cc : Flags) : Leaves scope cc x := by
  intro m hm
  rw [hx m, hm]
  exact .refl scope cc

/-- Anything stays within the scope of all codes. -/
theorem leaves_all (cc : Flags) (x : Exec μ α) : Leaves (PerFlag.all true) cc x :=
  fun _ _ => Flags.within_all _ _

/-- After an action that leaves the codes alone the scope is what comes then. -/
theorem Leaves.bind (hx : Still x) (hf : ∀ a, Leaves scope cc (f a)) :
    Leaves scope cc (x >>= f) :=
  fun m hm => hf _ _ ((hx m).trans hm)

/-- Actions behind that leave the codes alone do not matter either. -/
theorem Leaves.andThen (hx : Leaves scope cc x) (hf : ∀ a, Still (f a)) :
    Leaves scope cc (x >>= f) := by
  intro m hm
  rw [after_bind, hf]
  exact hx m hm

/-- Two actions within a scope are within it together. -/
theorem Leaves.seq (hx : Leaves scope cc x)
    (hf : ∀ a cc', scope.Within cc cc' → Leaves scope cc' (f a)) : Leaves scope cc (x >>= f) :=
  fun m hm => (hx m hm).trans (hf _ _ (hx m hm) _ rfl)

/-- The registers that an action reads hold the condition codes as they are. -/
theorem Leaves.registers {f : Registers → Exec μ β} (hf : ∀ r, Leaves scope r.cc (f r)) :
    Leaves scope cc (registers >>= f) := by
  rintro m rfl
  exact hf m.cpu.registers m rfl

/-- Setting the codes stays within a scope if the new codes differ there only. -/
theorem leaves_setFlags (h : scope.Within cc cc') :
    Leaves scope cc (setFlags cc' : Exec μ Unit) :=
  fun _ _ => h

/-- So does a change of the registers. -/
theorem leaves_modifyRegisters {g : Registers → Registers}
    (h : ∀ r, r.cc = cc → scope.Within cc (g r).cc) :
    Leaves scope cc (modifyRegisters g : Exec μ Unit) :=
  fun m hm => h m.cpu.registers hm

end Combining

/-! ### What leaves the codes alone -/

section Still

variable {μ : Type}

theorem still_registers : Still (registers : Exec μ Registers) := fun _ => rfl

theorem still_modifyRegisters {g : Registers → Registers} (h : ∀ r, (g r).cc = r.cc) :
    Still (modifyRegisters g : Exec μ Unit) := fun m => h m.cpu.registers

/-- Loading another register leaves CC alone. -/
theorem cc_assign {name : RegisterName} (h : name ≠ .cc) (r : Registers) (value : Word) :
    (r.assign name value).cc = r.cc := by
  cases name <;> first | rfl | exact absurd rfl h

theorem still_setRegister {name : RegisterName} (h : name ≠ .cc) (value : Word) :
    Still (setRegister name value : Exec μ Unit) := fun m => cc_assign h m.cpu.registers value

theorem still_goto (address : Word) : Still (goto address : Exec μ Unit) := fun _ => rfl

theorem still_note (message : Message) : Still (note message : Exec μ Unit) := fun _ => rfl

theorem still_branchTo (condition : Condition) (address : Word) :
    Still (branchTo condition address : Exec μ Bool) :=
  .bind still_registers fun _ => .ite (.bind (still_goto address) fun _ => .pure true) (.pure false)

theorem still_transferFrom (code : ℕ) : Still (transferFrom code : Exec μ Word) :=
  .bind still_registers fun _ => .pure _

/-- Writing its destination does, unless that is CC. -/
theorem still_transferTo {code : ℕ} (h : code ≠ 0xA) (value : Word) :
    Still (transferTo code value : Exec μ Unit) := by
  unfold transferTo
  split
  · next name hname =>
    refine still_setRegister ?_ value
    rintro rfl
    exact h (RegisterName.ofTransferCode?_inj hname rfl)
  · exact still_note _

/-- Forming an indexed address does, also when it changes the index register. -/
theorem still_formAddress {base : RegisterName} (h : base ≠ .cc) (form : IndexedForm)
    (operand : Word) : Still (formAddress base form operand : Exec μ Word) := by
  refine .bind still_registers fun r => ?_
  cases form with
  | postIncrement step | preDecrement step =>
    exact .bind (still_modifyRegisters fun r => cc_assign h r _) fun _ => .pure _
  | _ => exact .pure _

variable [Memory μ]

theorem still_load (address : Word) : Still (load address : Exec μ Byte) :=
  fun m => congrArg Registers.cc (registers_load address m)

theorem still_store (address : Word) (value : Byte) : Still (store address value : Exec μ Unit) :=
  fun m => congrArg Registers.cc (registers_store address value m)

/-- Fetching leaves the codes alone. -/
theorem fetching_still :
    Fetching fun m m' : Machine μ => m'.cpu.registers.cc = m.cpu.registers.cc where
  refl _ := rfl
  trans _ _ _ h h' := h'.trans h
  load := still_load
  goto := still_goto

theorem still_loadWord (address : Word) : Still (loadWord address : Exec μ Word) :=
  fetching_still.loadWord address

theorem still_storeWord (address value : Word) : Still (storeWord address value : Exec μ Unit) :=
  .bind (still_store address _) fun _ => still_store _ _

/-! ### Stacks -/

/-- The codes are not a stack pointer. -/
theorem pointer_ne_cc (stack : Stack) : stack.pointer ≠ .cc := by
  cases stack <;> exact fun h => nomatch h

theorem still_pushByte (stack : Stack) (v : Byte) : Still (pushByte stack v : Exec μ Unit) :=
  .bind still_registers fun _ =>
    .bind (still_modifyRegisters fun r => cc_assign (pointer_ne_cc stack) r _) fun _ =>
      still_store _ v

theorem still_pushBytes (stack : Stack) (bytes : List Byte) :
    Still (pushBytes stack bytes : Exec μ Unit) := by
  induction bytes with
  | nil => exact .pure ()
  | cons b bytes ih => exact .bind (still_pushByte stack b) fun _ => ih

theorem still_pushFrame (stack : Stack) (list : Byte) :
    Still (pushFrame stack list : Exec μ ℕ) :=
  .bind still_registers fun _ => .bind (still_pushBytes stack _) fun _ => .pure _

theorem still_pullByte (stack : Stack) : Still (pullByte stack : Exec μ Byte) :=
  .bind still_registers fun _ => .bind (still_load _) fun _ =>
    .bind (still_modifyRegisters fun r => cc_assign (pointer_ne_cc stack) r _) fun _ => .pure _

theorem still_pushWord (stack : Stack) (value : Word) :
    Still (pushWord stack value : Exec μ Unit) :=
  .bind (still_pushByte stack _) fun _ => still_pushByte stack _

theorem still_pullWord (stack : Stack) : Still (pullWord stack : Exec μ Word) :=
  .bind (still_pullByte stack) fun _ => .bind (still_pullByte stack) fun _ => .pure _

theorem still_pullRegister (stack : Stack) {name : RegisterName} (h : name ≠ .cc) :
    Still (pullRegister stack name : Exec μ ℕ) := by
  refine .ite ?byte ?word
  case byte =>
    exact .bind (still_pullByte stack) fun _ => .bind (still_setRegister h _) fun _ => .pure 1
  case word =>
    exact .bind (still_pullWord stack) fun _ => .bind (still_setRegister h _) fun _ => .pure 2

/-- Pulling several does, unless CC is among them. -/
theorem still_pullRegisters (stack : Stack) {names : List RegisterName} (h : .cc ∉ names) :
    Still (pullRegisters stack names : Exec μ ℕ) := by
  induction names with
  | nil => exact .pure 0
  | cons name names ih =>
    have first : name ≠ .cc := fun hname => h (hname ▸ List.mem_cons_self)
    have rest : .cc ∉ names := fun hmem => h (List.mem_cons_of_mem name hmem)
    exact .bind (still_pullRegister stack first) fun _ => .bind (ih rest) fun _ => .pure _

/-- A list without the condition codes leaves them alone. -/
theorem still_pullFrame (stack : Stack) {list : Byte} (h : ¬bitOf list 0 = true) :
    Still (pullFrame stack list : Exec μ ℕ) :=
  still_pullRegisters stack (mt (Stack.cc_mem_selected stack list).mp h)

theorem still_gotoVector (vector : Word) : Still (gotoVector vector : Exec μ Unit) :=
  fetching_still.gotoVector vector

/-! ### Operands -/

theorem still_resolve (mode : AddressingMode) (code start : Word) :
    Still (resolve mode code start : Exec μ (Except Fault Located)) :=
  fetching_still.resolve code start fun _ _ operand word hdecode =>
    still_formAddress (IndexedOperand.base_ne_cc hdecode) operand.form word

theorem still_fetchOpcode : Still (fetchOpcode : Exec μ (Word × List Byte)) :=
  fetching_still.fetchOpcode

end Still

/-! ### Operations -/

section Operations

variable {μ : Type}

theorem cc_set (acc : Accumulator) (v : Byte) (r : Registers) : (acc.set v r).cc = r.cc := by
  cases acc <;> rfl

variable [Memory μ] {cc : Flags}

/-- A software interrupt sets E as it stacks the entire state, and some also mask the others. -/
theorem leaves_swi (vector : Word) (masks : Bool) (address : Word) :
    Leaves (Operation.swi vector masks).scope cc
      (perform (.swi vector masks) address : Exec μ ℕ) := by
  -- E is set before the frame is pushed
  have stacked : Leaves (Operation.swi vector masks).scope cc (pushEntireState : Exec μ Unit) :=
    .andThen (leaves_modifyRegisters fun _ hr => hr ▸ rfl) fun _ =>
      .bind (still_pushFrame .system _) fun _ => .pure ()
  have jump : Still (gotoVector vector >>= fun _ => (pure 0 : Exec μ ℕ)) :=
    .bind (still_gotoVector vector) fun _ => .pure 0
  cases masks with
  | false => exact stacked.andThen fun _ => jump
  -- and the masks are set behind it
  | true =>
    refine stacked.seq fun _ cc' _ => .andThen (leaves_modifyRegisters fun _ hr => ?_) fun _ => jump
    exact hr ▸ rfl

/-- An operation whose operand byte chooses no register leaves the codes outside its scope. -/
theorem leaves_perform {operation : Operation} (h : operation.moves = false)
    (address : Word) : Leaves operation.scope cc (perform operation address : Exec μ ℕ) := by
  have zero : Still (pure 0 : Exec μ ℕ) := .pure 0
  -- the codes are set last, to what the registers and the operand have given
  have codes {scope cc cc' : Flags} (hcc : scope.Within cc cc') :
      Leaves scope cc (setFlags cc' >>= fun _ => pure 0 : Exec μ ℕ) :=
    (leaves_setFlags hcc).andThen fun _ => zero
  cases operation with
  | binary op acc =>
    refine .bind (still_load address) fun operand => .registers fun r => ?_
    refine .andThen (leaves_modifyRegisters fun r' _ => ?_) fun _ => zero
    -- the accumulator is set beside the codes
    rw [cc_set]
    exact op.within_apply _ operand r.cc
  | modify op =>
    refine .bind (still_load address) fun operand => .registers fun r => ?_
    have changed := codes (op.within_apply operand r.cc)
    exact .ite changed (.bind (still_store address _) fun _ => changed)
  | modifyAcc op acc =>
    refine .andThen (leaves_modifyRegisters fun r hr => ?_) fun _ => zero
    dsimp only
    rw [cc_set, ← hr]
    exact op.within_apply _ r.cc
  | store acc =>
    exact .bind still_registers fun _ => .bind (still_store address _) fun _ =>
      .registers fun r => codes (r.cc.within_logic8 _)
  | loadWord name =>
    by_cases hname : name = .cc
    · -- a load of CC may change them all
      subst hname
      exact leaves_all cc _
    · rw [Operation.scope, if_neg hname]
      exact .bind (still_loadWord address) fun value => .registers fun r =>
        .andThen (leaves_setFlags (r.cc.within_logic16 value)) fun _ =>
          .bind (still_setRegister hname value) fun _ => zero
  | storeWord name =>
    exact .bind still_registers fun _ => .bind (still_storeWord address _) fun _ =>
      .registers fun r => codes (r.cc.within_logic16 _)
  | compareWord name =>
    exact .bind (still_loadWord address) fun _ => .registers fun r => codes rfl
  | addD | subD =>
    exact .bind (still_loadWord address) fun _ =>
      .andThen (leaves_modifyRegisters fun r hr => hr ▸ rfl) fun _ => zero
  | lea name =>
    -- without the Z of LEAX and LEAY
    have still (hname : name ≠ .cc) :
        Still (setRegister name address >>= fun _ => pure 0 : Exec μ ℕ) :=
      .bind (still_setRegister hname address) fun _ => zero
    cases name with
    | cc => exact leaves_all cc _
    | x | y => exact .andThen (leaves_modifyRegisters fun r hr => hr ▸ rfl) fun _ => still nofun
    | _ => exact (still nofun).leaves _ cc
  | branch condition =>
    exact Still.leaves (.bind (still_branchTo condition address) fun _ => zero) _ _
  | longBranch condition =>
    exact Still.leaves (.bind (still_branchTo condition address) fun _ => .pure _) _ _
  | jump => exact Still.leaves (.bind (still_goto address) fun _ => zero) _ _
  | call =>
    refine Still.leaves (.bind still_registers fun r => .bind (still_pushWord .system r.pc) ?_) _ _
    exact fun _ => .bind (still_goto address) fun _ => zero
  | «return» =>
    refine Still.leaves (.bind (still_pullWord .system) fun target => ?_) _ _
    exact .bind (still_goto target) fun _ => zero
  | push stack =>
    exact Still.leaves (.bind (still_load address) fun _ => still_pushFrame stack _) _ _
  | transfer | exchange | pull => exact nomatch h
  -- these may do what they like with the codes
  | orCC | andCC | cwai | rti => exact leaves_all cc _
  | sync | nop => exact Still.leaves (fun _ => rfl) _ _
  | swi vector masks => exact leaves_swi vector masks address
  | mul | sex | daa | abx =>
    exact .andThen (leaves_modifyRegisters fun r hr => hr ▸ rfl) fun _ => zero

/-- What an operation does to the condition codes stays in its scope, unless its operand byte makes
it replace them. -/
theorem within_perform {m : Machine μ} {operation : Operation} {address : Word}
    (h : ¬operation.Replaces (m.gives (load address))) :
    operation.scope.Within m.cpu.registers.cc
      (m.after (perform operation address)).cpu.registers.cc := by
  have zero : Still (pure 0 : Exec μ ℕ) := .pure 0
  have moved {x : Byte → Exec μ ℕ} (hx : Still (x (m.gives (load address)))) :
      Flags.none.Within m.cpu.registers.cc (m.after (load address >>= x)).cpu.registers.cc :=
    congrArg (Flags.assign · Flags.none false) ((hx _).trans (still_load address m))
  -- only what pulls or transfers can replace CC as a whole
  cases operation with
  | pull stack => exact moved (still_pullFrame stack h)
  | transfer =>
    exact moved (.bind (still_transferFrom _) fun _ => .bind (still_transferTo h _) fun _ => zero)
  | exchange =>
    obtain ⟨low, high⟩ := not_or.mp h
    exact moved (.bind (still_transferFrom _) fun _ => .bind (still_transferFrom _) fun _ =>
      .bind (still_transferTo high _) fun _ => .bind (still_transferTo low _) fun _ => zero)
  | _ => exact leaves_perform rfl address m rfl

end Operations

/-! ### Instructions -/

section Instructions

variable {μ : Type} [Memory μ] {m : Machine μ}

/-- The byte after the opcode at PC. It is loaded with the instruction and once more by the
operation, which goes by what it finds then. -/
def operandByte (m : Machine μ) : Byte :=
  (m.opened.after (resolveImmediate 1)).gives (load m.opened.cpu.registers.pc)

/-- The instruction that `m` executes leaves the condition codes of `n`. -/
def FramesCodes (m n : Machine μ) : Prop :=
  ∃ row, OpcodeMap.lookup? (m.gives fetchOpcode).1 = some row ∧
    row.CodesFramed m.operandByte m.cpu.registers.cc n.cpu.registers.cc

/-- An instruction that succeeds changes codes of its own scope only. -/
theorem framesCodes_executeNext {used : ℕ} (h : m.gives executeNext = .ok used) :
    m.FramesCodes (m.after executeNext) := by
  obtain ⟨row, operand, locates⟩ := exists_locates h
  have opened : m.opened.cpu.registers.cc = m.cpu.registers.cc := still_fetchOpcode m
  refine ⟨row, locates.lookup, Instruction.codesFramed_of_within locates.row_mem fun hr => ?_⟩
  rw [locates.registers, ← opened,
    ← still_resolve row.mode row.code m.cpu.registers.pc m.opened]
  refine within_perform fun replaces => hr ?_
  -- the byte that decides is loaded a second time, from the address that the mode has given
  have mode :=
    (Instruction.rows_moving row locates.row_mem).1 (Operation.moves_of_replaces replaces)
  have located := locates.resolved
  rw [mode] at located replaces
  obtain rfl : m.opened.gives (resolveImmediate 1) = operand := Except.ok.inj located
  exact replaces

/-- **Which condition codes an instruction changes.** Whatever the processor and its memory hold, an
instruction that is executed leaves the codes that `Instruction.CodesFramed` lists for its mnemonic:
E, F and I, H, C, or all of them. So does the tick or the step that executes it, when compared with
the codes as they are once the posted writes are adopted. -/
theorem codes_framed (m : Machine μ) :
    (∀ used, m.gives executeNext = .ok used → m.FramesCodes (m.after executeNext)) ∧
      ∀ e used, m.Works e → m.started.Executes → m.started.awake.gives executeNext = .ok used →
        m.started.awake.FramesCodes (m.happen e) := by
  refine ⟨fun _ => framesCodes_executeNext, fun e used works executes success => ?_⟩
  obtain ⟨row, lookup, framed⟩ := framesCodes_executeNext success
  refine ⟨row, lookup, ?_⟩
  rw [(cpu_of_works works).1, (work_of_executes executes).1]
  exact framed

/-- A machine about to subtract 1 from A, with all condition codes set. -/
def subtracting : Machine Ram :=
  let m := ofMemory { contents := #[0x80, 0x01] }
  { m with cpu := m.cpu.setFlags (PerFlag.all true) }

/-- A subtraction sets the codes of its result and leaves the others. -/
theorem codes_framed_subtracting :
    subtracting.gives executeNext = .ok 2 ∧
      (subtracting.after executeNext).cpu.registers.cc
        = { PerFlag.all true with z := false, v := false } ∧
      subtracting.Works .step ∧ subtracting.started.Executes ∧
      subtracting.started.awake.FramesCodes (subtracting.happen .step) := by
  have success : subtracting.gives executeNext = .ok 2 := rfl
  have executes : subtracting.started.Executes := ⟨rfl, .inl rfl⟩
  exact ⟨success, rfl, trivial, executes,
    (codes_framed subtracting).2 .step 2 trivial executes rfl⟩

end Instructions

end Machine

end Machine6809
