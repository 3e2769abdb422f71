import Machine6809.Proofs.Machine.Executing
import Mathlib.Data.Nat.Notation

/-!
# Two machines that do the same

All actions of the machine are put together from a few: to load and to store a byte, and to change
the processor. So whatever relation between two machines these few preserve is preserved by all of
them (`Frame`), and as long as the two processors are equal, their messages apart, the two machines
also get the same values (`Agree`). The machines may have memories of different kinds.

The changes to the processor leave the register file, the interrupt lines, the clock and the visited
addresses alone, and they do not look at the messages (`Plain`), with three exceptions: S can be
loaded, which arms NMI, a NMI that is entered is no longer latched, and the start of an instruction
is visited. They are not part of `Frame`. Where an action does one of them the relation has to be
preserved by that as well (`Arms`, `Unlatches`, `Visits`).

That a part of the processor does not change is such a relation as well, between a machine and
itself (`Kept`).
-/

namespace Machine6809

/-- The operation can load S, depending on the operand in some cases. -/
def Operation.mayLoadS : Operation → Bool
  | .loadWord name | .lea name => name = .s
  | .pull stack => stack = .user
  | .transfer | .exchange => true
  | _ => false

/-- A stack pointer is not pulled from its own stack. -/
theorem Stack.pointer_not_mem_selected (stack : Stack) (list : Byte) :
    stack.pointer ∉ stack.selected list := by
  intro h
  obtain ⟨⟨name, i⟩, hmem, rfl⟩ := List.mem_map.mp h
  have hname := List.fst_mem_of_mem_zipIdx (List.mem_filter.mp hmem).1
  revert hname
  cases stack <;> simp [registers, Stack.other] <;> decide

/-- The processor without its messages. -/
def Cpu.silent (cpu : Cpu) : Cpu := { cpu with journal := #[] }

namespace Machine

/-- Two actions do the same on machines that are related, and leave related machines. -/
def Agree {μ ν α : Type} (R : Machine μ → Machine ν → Prop) (x : Exec μ α) (y : Exec ν α) : Prop :=
  ∀ m n, R m n → m.gives x = n.gives y ∧ R (m.after x) (n.after y)

/-- A change to the processor that the register file, the interrupt lines, the clock and the map of
visited addresses do not notice, that does not depend on the messages and that has no say in whether
they are wanted. -/
structure Plain (f : Cpu → Cpu) : Prop where
  file : ∀ cpu, (f cpu).file = cpu.file
  lines : ∀ cpu, (f cpu).lines = cpu.lines
  countdown : ∀ cpu, (f cpu).countdown = cpu.countdown
  totalCycles : ∀ cpu, (f cpu).totalCycles = cpu.totalCycles
  visited : ∀ cpu, (f cpu).visited = cpu.visited
  tracing : ∀ cpu, (f cpu).tracing = cpu.tracing
  silent : ∀ cpu, (f cpu.silent).silent = (f cpu).silent

/-- A relation that is preserved by what all actions are made of. -/
structure Frame {μ ν : Type} [Memory μ] [Memory ν] (R : Machine μ → Machine ν → Prop) : Prop where
  silent_eq : ∀ m n, R m n → m.cpu.silent = n.cpu.silent
  load : ∀ address, Agree R (load address) (load address)
  store : ∀ address value, Agree R (store address value) (store address value)
  modifyCpu : ∀ f, Plain f → Agree R (modifyCpu f) (modifyCpu f)

/-- A relation that is preserved when S is loaded. -/
def Arms {μ ν : Type} (R : Machine μ → Machine ν → Prop) : Prop :=
  ∀ value, Agree R (setRegister .s value) (setRegister .s value)

/-- A relation that is preserved when a NMI is taken off the latch. -/
def Unlatches {μ ν : Type} (R : Machine μ → Machine ν → Prop) : Prop :=
  Agree R (modifyCpu fun cpu => { cpu with lines := { cpu.lines with nmiLatched := false } })
    (modifyCpu fun cpu => { cpu with lines := { cpu.lines with nmiLatched := false } })

/-- A relation that is preserved when an address is visited. -/
def Visits {μ ν : Type} (R : Machine μ → Machine ν → Prop) : Prop :=
  ∀ address, Agree R (modifyCpu (·.visit address)) (modifyCpu (·.visit address))

section Agree

variable {μ ν α β : Type} {R : Machine μ → Machine ν → Prop} {x : Exec μ α} {y : Exec ν α}

theorem Agree.pure (a : α) : Agree R (pure a) (pure a) := fun _ _ h => ⟨rfl, h⟩

theorem Agree.bind {f : α → Exec μ β} {g : α → Exec ν β} (hx : Agree R x y)
    (hf : ∀ a, Agree R (f a) (g a)) : Agree R (x >>= f) (y >>= g) := by
  intro m n h
  -- the two go on with the same value, and the machines are still related
  obtain ⟨hgives, hafter⟩ := hx m n h
  rw [gives_bind, gives_bind, after_bind, after_bind, hgives]
  exact hf _ _ _ hafter

theorem Agree.ite {x' : Exec μ α} {y' : Exec ν α} {c : Prop} [Decidable c] (hx : Agree R x y)
    (hx' : Agree R x' y') : Agree R (if c then x else x') (if c then y else y') := by
  split_ifs
  · exact hx
  · exact hx'

/-- An action that is left out under some condition. -/
theorem Agree.optional {z : Exec μ β} {w : Exec ν β} (c : Prop) [Decidable c] (hx : Agree R x y)
    (hz : Agree R z w) :
    Agree R (if c then x >>= fun _ => z else z) (if c then y >>= fun _ => w else w) :=
  .ite (hx.bind fun _ => hz) hz

end Agree

/-! ### What all actions are made of -/

section Plain

theorem plain_registers (f : Registers → Registers) :
    Plain fun cpu => { cpu with registers := f cpu.registers } := by
  constructor <;> exact fun _ => rfl

theorem plain_wait (wait : WaitState) : Plain fun cpu => { cpu with wait } := by
  constructor <;> exact fun _ => rfl

theorem plain_note (message : Message) : Plain (·.note message) := by
  constructor <;> exact fun _ => rfl

theorem plain_setRegister {name : RegisterName} (h : name ≠ .s) (value : Word) :
    Plain (·.setRegister name value) := by
  constructor
  case lines => exact fun _ => if_neg h
  all_goals exact fun _ => rfl

end Plain

/-- The last part of entering an interrupt: the frame, the masks and the vector. -/
def leaveFor {μ : Type} [Memory μ] (source : InterruptSource) (stacked : Bool) : Exec μ Unit := do
  if !stacked then
    pushInterruptFrame source
  maskInterrupts
  gotoVector source.vector

namespace Frame

variable {μ ν : Type} [Memory μ] [Memory ν] {R : Machine μ → Machine ν → Prop} (h : Frame R)
include h

/-- What an action can read of the processor. -/
theorem read_eq {m : Machine μ} {n : Machine ν} (hmn : R m n) :
    m.cpu.registers = n.cpu.registers ∧ m.cpu.lines = n.cpu.lines ∧ m.cpu.wait = n.cpu.wait := by
  have same {α : Type} (part : Cpu → α) : part m.cpu.silent = part n.cpu.silent :=
    congrArg part (h.silent_eq m n hmn)
  exact ⟨same Cpu.registers, same Cpu.lines, same Cpu.wait⟩

theorem registers : Agree R registers registers :=
  fun _ _ hmn => ⟨(h.read_eq hmn).1, hmn⟩

theorem modifyRegisters (f : Registers → Registers) :
    Agree R (modifyRegisters f) (modifyRegisters f) :=
  h.modifyCpu _ (plain_registers _)

theorem setFlags (cc : Flags) : Agree R (setFlags cc) (setFlags cc) :=
  h.modifyCpu _ (plain_registers fun r => { r with cc })

theorem goto (address : Word) : Agree R (goto address) (goto address) := h.modifyRegisters _

theorem note (message : Message) : Agree R (note message) (note message) :=
  h.modifyCpu _ (plain_note message)

/-- A register is loaded on both sides; S arms interrupts with that. -/
theorem setRegister {name : RegisterName} (arms : name = .s → Arms R) (value : Word) :
    Agree R (setRegister name value) (setRegister name value) := by
  by_cases hs : name = .s
  · subst hs
    exact arms rfl value
  · exact h.modifyCpu _ (plain_setRegister hs value)

/-! ### Bytes, words and runs -/

theorem loadWord (address : Word) : Agree R (loadWord address) (loadWord address) :=
  (h.load address).bind fun _ => (h.load (address + 1)).bind fun _ => .pure _

theorem storeWord (address value : Word) :
    Agree R (storeWord address value) (storeWord address value) :=
  (h.store address _).bind fun _ => h.store (address + 1) _

theorem loadBytes (address : Word) (n : ℕ) :
    Agree R (loadBytes address n) (loadBytes address n) := by
  induction n generalizing address with
  | zero => exact .pure []
  | succ n ih => exact (h.load address).bind fun _ => (ih (address + 1)).bind fun _ => .pure _

theorem fetch : Agree R fetch fetch :=
  h.registers.bind fun r => (h.load r.pc).bind fun _ => (h.goto _).bind fun _ => .pure _

theorem fetchBytes (n : ℕ) : Agree R (fetchBytes n) (fetchBytes n) := by
  induction n with
  | zero => exact .pure []
  | succ n ih => exact h.fetch.bind fun _ => ih.bind fun _ => .pure _

/-! ### Stacks -/

theorem pushByte (stack : Stack) (byte : Byte) :
    Agree R (pushByte stack byte) (pushByte stack byte) :=
  h.registers.bind fun _ => (h.modifyRegisters _).bind fun _ => h.store _ _

theorem pullByte (stack : Stack) : Agree R (pullByte stack) (pullByte stack) :=
  h.registers.bind fun _ => (h.load _).bind fun _ => (h.modifyRegisters _).bind fun _ => .pure _

theorem pushWord (stack : Stack) (word : Word) :
    Agree R (pushWord stack word) (pushWord stack word) :=
  (h.pushByte stack _).bind fun _ => h.pushByte stack _

theorem pullWord (stack : Stack) : Agree R (pullWord stack) (pullWord stack) :=
  (h.pullByte stack).bind fun _ => (h.pullByte stack).bind fun _ => .pure _

theorem pushBytes (stack : Stack) (bytes : List Byte) :
    Agree R (pushBytes stack bytes) (pushBytes stack bytes) := by
  induction bytes with
  | nil => exact .pure ()
  | cons byte bytes ih => exact (h.pushByte stack byte).bind fun _ => ih

theorem pushFrame (stack : Stack) (list : Byte) :
    Agree R (pushFrame stack list) (pushFrame stack list) :=
  h.registers.bind fun _ => (h.pushBytes stack _).bind fun _ => .pure _

/-- A register is pulled, and S may be the one. -/
theorem pullRegister (stack : Stack) {name : RegisterName} (arms : name = .s → Arms R) :
    Agree R (pullRegister stack name) (pullRegister stack name) := by
  refine .ite ?byte ?word
  case byte =>
    exact (h.pullByte stack).bind fun _ => (h.setRegister arms _).bind fun _ => .pure 1
  case word =>
    exact (h.pullWord stack).bind fun _ => (h.setRegister arms _).bind fun _ => .pure 2

/-- Several are, and S may be among them. -/
theorem pullRegisters (stack : Stack) {names : List RegisterName} (arms : .s ∈ names → Arms R) :
    Agree R (pullRegisters stack names) (pullRegisters stack names) := by
  induction names with
  | nil => exact .pure 0
  | cons name names ih =>
    have first : name = .s → Arms R := fun hs => arms (hs ▸ List.mem_cons_self)
    have rest : .s ∈ names → Arms R := fun hs => arms (List.mem_cons_of_mem name hs)
    exact (h.pullRegister stack first).bind fun _ => (ih rest).bind fun _ => .pure _

/-- What a list selects is pulled alike. -/
theorem pullFrame (stack : Stack) (list : Byte) (arms : .s ∈ stack.selected list → Arms R) :
    Agree R (pullFrame stack list) (pullFrame stack list) :=
  h.pullRegisters stack arms

/-- The system stack does not give S, so nothing need be known about arming. -/
theorem pullSystem (list : Byte) :
    Agree R (Machine.pullFrame .system list) (Machine.pullFrame .system list) :=
  h.pullFrame .system list fun hs => absurd hs (Stack.pointer_not_mem_selected .system list)

/-- The frame of the whole state is pushed alike. -/
theorem pushEntireState : Agree R pushEntireState pushEntireState :=
  (h.modifyRegisters _).bind fun _ => (h.pushFrame _ _).bind fun _ => .pure ()

theorem maskInterrupts : Agree R maskInterrupts maskInterrupts := h.modifyRegisters _

theorem gotoVector (vector : Word) : Agree R (gotoVector vector) (gotoVector vector) :=
  (h.loadWord vector).bind fun _ => h.goto _

/-- An interrupt is left alike, whichever frame it has pushed. -/
theorem returnFromInterrupt : Agree R returnFromInterrupt returnFromInterrupt := by
  refine (h.pullSystem 0x01).bind fun _ => h.registers.bind fun r => ?_
  have rest := (h.pullSystem 0x80).bind fun _ => .pure (if r.cc.e then 9 else 0)
  exact .ite ((h.pullSystem 0x7E).bind fun _ => rest) rest

/-! ### Operations -/

/-- A transfer may load S. -/
theorem transferTo (arms : Arms R) (code : ℕ) (value : Word) :
    Agree R (transferTo code value) (transferTo code value) := by
  unfold Machine.transferTo
  split
  · exact h.setRegister (fun _ => arms) value
  · exact h.note _

theorem transferFrom (code : ℕ) : Agree R (transferFrom code) (transferFrom code) :=
  h.registers.bind fun _ => .pure _

theorem branchTo (condition : Condition) (address : Word) :
    Agree R (branchTo condition address) (branchTo condition address) :=
  h.registers.bind fun _ => .ite ((h.goto address).bind fun _ => .pure true) (.pure false)

/-- An operation preserves the relation, if it loads S only where this preserves the relation. -/
theorem perform {operation : Operation} (arms : operation.mayLoadS = true → Arms R)
    (address : Word) : Agree R (perform operation address) (perform operation address) := by
  have zero : Agree R (Pure.pure 0) (Pure.pure 0) := .pure 0
  -- by the operation, following its actions one by one
  cases operation with
  | binary op acc =>
    exact (h.load address).bind fun _ => h.registers.bind fun _ =>
      (h.modifyRegisters _).bind fun _ => zero
  | modify op =>
    refine (h.load address).bind fun _ => h.registers.bind fun _ => ?_
    -- TST stores nothing
    refine .ite ((h.setFlags _).bind fun _ => zero) ?_
    exact (h.store address _).bind fun _ => (h.setFlags _).bind fun _ => zero
  | store acc =>
    exact h.registers.bind fun _ => (h.store address _).bind fun _ => h.registers.bind fun _ =>
      (h.setFlags _).bind fun _ => zero
  | loadWord name =>
    have arms : name = .s → Arms R := fun hs => arms (decide_eq_true hs)
    exact (h.loadWord address).bind fun _ => h.registers.bind fun _ => (h.setFlags _).bind fun _ =>
      (h.setRegister arms _).bind fun _ => zero
  | storeWord name =>
    exact h.registers.bind fun _ => (h.storeWord address _).bind fun _ => h.registers.bind fun _ =>
      (h.setFlags _).bind fun _ => zero
  | compareWord name =>
    exact (h.loadWord address).bind fun _ => h.registers.bind fun _ =>
      (h.setFlags _).bind fun _ => zero
  | addD | subD =>
    exact (h.loadWord address).bind fun _ => (h.modifyRegisters _).bind fun _ => zero
  | lea name =>
    have arms : name = .s → Arms R := fun hs => arms (decide_eq_true hs)
    -- LEA of X and Y sets Z first
    refine .ite ((h.modifyRegisters _).bind fun _ => ?_) ?_
    · exact (h.setRegister arms _).bind fun _ => zero
    · exact (h.setRegister arms _).bind fun _ => zero
  | branch condition => exact (h.branchTo condition address).bind fun _ => zero
  | longBranch condition => exact (h.branchTo condition address).bind fun _ => .pure _
  | jump => exact (h.goto address).bind fun _ => zero
  | call =>
    exact h.registers.bind fun _ => (h.pushWord _ _).bind fun _ =>
      (h.goto address).bind fun _ => zero
  | «return» => exact (h.pullWord _).bind fun target => (h.goto target).bind fun _ => zero
  | push stack => exact (h.load address).bind fun _ => h.pushFrame stack _
  | pull stack =>
    refine (h.load address).bind fun list => h.pullFrame stack list fun hs => ?_
    -- only the user stack can give S
    cases stack with
    | system => exact absurd hs (Stack.pointer_not_mem_selected .system list)
    | user => exact arms rfl
  | transfer =>
    exact (h.load address).bind fun _ => (h.transferFrom _).bind fun _ =>
      (h.transferTo (arms rfl) _ _).bind fun _ => zero
  | exchange =>
    exact (h.load address).bind fun _ => (h.transferFrom _).bind fun _ =>
      (h.transferFrom _).bind fun _ => (h.transferTo (arms rfl) _ _).bind fun _ =>
      (h.transferTo (arms rfl) _ _).bind fun _ => zero
  | orCC | andCC =>
    exact (h.load address).bind fun _ => h.registers.bind fun _ => (h.setFlags _).bind fun _ => zero
  | cwai =>
    exact (h.load address).bind fun _ => h.registers.bind fun _ => (h.setFlags _).bind fun _ =>
      h.pushEntireState.bind fun _ => (h.modifyCpu _ (plain_wait .cwai)).bind fun _ => zero
  | sync => exact (h.modifyCpu _ (plain_wait .sync)).bind fun _ => zero
  | nop => exact zero
  | rti => exact h.returnFromInterrupt
  | swi vector masks =>
    refine h.pushEntireState.bind fun _ => ?_
    -- only SWI masks the interrupts
    refine .ite (h.maskInterrupts.bind fun _ => ?_) ?_
    · exact (h.gotoVector vector).bind fun _ => zero
    · exact (h.gotoVector vector).bind fun _ => zero
  | modifyAcc | mul | sex | daa | abx => exact (h.modifyRegisters _).bind fun _ => zero

/-! ### Instructions -/

/-- An indexed address is formed alike. -/
theorem formAddress (base : RegisterName) (form : IndexedForm) (operand : Word) :
    Agree R (formAddress base form operand) (formAddress base form operand) := by
  refine h.registers.bind fun r => ?_
  cases form with
  | postIncrement step | preDecrement step => exact (h.modifyRegisters _).bind fun _ => .pure _
  | _ => exact .pure _

theorem resolveIndexed (start : Word) :
    Agree R (resolveIndexed start) (resolveIndexed start) := by
  refine h.fetch.bind fun postbyte => ?_
  cases IndexedOperand.decode? postbyte with
  | none => exact .pure _
  | some operand =>
    refine (h.fetchBytes _).bind fun _ => (h.formAddress _ _ _).bind fun formed => ?_
    exact .ite ((h.loadWord formed).bind fun _ => .pure _) (.pure _)

/-- An operand is found alike in each addressing mode. -/
theorem resolve (mode : AddressingMode) (opcode start : Word) :
    Agree R (resolve mode opcode start) (resolve mode opcode start) := by
  -- modes that differ in the number of bytes are taken together
  have immediate : ∀ n, Agree R (resolveImmediate n) (resolveImmediate n) := fun n =>
    h.registers.bind fun _ => (h.goto _).bind fun _ => (h.loadBytes _ n).bind fun _ => .pure _
  have relative : ∀ n, Agree R (resolveRelative n) (resolveRelative n) := fun n =>
    (h.fetchBytes n).bind fun _ => h.registers.bind fun _ => .pure _
  cases mode with
  | inherent | invalid => exact .pure _
  | imm8 | imm16 => exact (immediate _).bind fun _ => .pure _
  | direct =>
    exact .bind (h.registers.bind fun _ => h.fetch.bind fun _ => .pure _) fun _ => .pure _
  | extended => exact .bind ((h.fetchBytes 2).bind fun _ => .pure _) fun _ => .pure _
  | indexed => exact h.resolveIndexed start
  | rel8 | rel16 => exact (relative _).bind fun _ => .pure _

theorem fetchOpcode : Agree R fetchOpcode fetchOpcode := by
  refine h.fetch.bind fun first => .ite ?_ (.pure _)
  exact h.fetch.bind fun _ => .pure _

theorem noteExecuted (start : Word) (mnemonic : String) (bytes : List Byte) :
    Agree R (noteExecuted start mnemonic bytes) (noteExecuted start mnemonic bytes) := by
  -- the message may be unwanted
  refine h.modifyCpu _ ?_
  constructor
  case silent =>
    intro cpu
    dsimp only [Cpu.silent]
    split_ifs <;> rfl
  all_goals
    intro cpu
    split_ifs <;> rfl

/-- The same instruction runs. -/
theorem executeRow {row : Instruction} (arms : row.operation.mayLoadS = true → Arms R)
    (start : Word) (bytes : List Byte) :
    Agree R (executeRow row start bytes) (executeRow row start bytes) := by
  refine (h.resolve _ _ _).bind fun located => ?_
  cases located with
  | error fault => exact .pure _
  | ok operand =>
    exact (h.perform arms _).bind fun _ => (h.noteExecuted _ _ _).bind fun _ => .pure _

/-- The next instruction runs on both sides. -/
theorem executeNext (arms : Arms R) (visits : Visits R) : Agree R executeNext executeNext := by
  refine h.registers.bind fun r => h.fetchOpcode.bind fun opcode => ?_
  dsimp only
  cases OpcodeMap.lookup? opcode.1 with
  | none => exact .pure _
  | some row =>
    exact (visits r.pc).bind fun _ => h.executeRow (fun _ => arms) _ _

/-! ### Work -/

theorem pushInterruptFrame (source : InterruptSource) :
    Agree R (pushInterruptFrame source) (pushInterruptFrame source) := by
  cases source with
  | firq => exact (h.modifyRegisters _).bind fun _ => (h.pushFrame _ _).bind fun _ => .pure ()
  | nmi | irq => exact h.pushEntireState

/-- Leaving for the same handler is done alike, frame included. -/
theorem leaveFor (source : InterruptSource) (stacked : Bool) :
    Agree R (leaveFor source stacked) (leaveFor source stacked) :=
  .optional (!stacked) (h.pushInterruptFrame source)
    (h.maskInterrupts.bind fun _ => h.gotoVector source.vector)

/-- An interrupt is entered alike; NMI takes its latch away with that. -/
theorem enterInterrupt {source : InterruptSource} (unlatches : source = .nmi → Unlatches R)
    (stacked : Bool) :
    Agree R (enterInterrupt source stacked) (enterInterrupt source stacked) := by
  refine h.registers.bind fun r => (h.note _).bind fun _ => ?_
  cases source with
  | nmi => exact (unlatches rfl).bind fun _ => h.leaveFor .nmi stacked
  | firq => exact h.leaveFor .firq stacked
  | irq => exact h.leaveFor .irq stacked

/-- Whatever work does, it preserves the relation. -/
theorem work (arms : Arms R) (unlatches : Unlatches R) (visits : Visits R) :
    Agree R work work := by
  intro m n hmn
  obtain ⟨registers, lines, wait⟩ := h.read_eq hmn
  have awake : R m.awake n.awake := (h.modifyCpu _ (plain_wait .normal) m n hmn).2
  have enters : ∀ source stacked,
      Agree R (Machine.enterInterrupt source stacked) (Machine.enterInterrupt source stacked) :=
    fun source stacked => h.enterInterrupt (fun _ => unlatches) stacked
  -- which of the four things it does depends on the processor alone
  cases accepted : m.cpu.lines.accepted m.cpu.registers.cc with
  | some source =>
    have accepted' := accepted
    rw [lines, registers] at accepted'
    by_cases hw : m.cpu.wait = .cwai
    · -- the frame is on the stack already
      obtain ⟨after, gives⟩ := work_of_wake hw accepted
      obtain ⟨after', gives'⟩ := work_of_wake (wait ▸ hw) accepted'
      rw [after, after', gives, gives']
      exact ⟨rfl, (enters source true _ _ awake).2⟩
    · obtain ⟨after, gives⟩ := work_of_accepted hw accepted
      obtain ⟨after', gives'⟩ := work_of_accepted (wait ▸ hw) accepted'
      rw [after, after', gives, gives']
      exact ⟨rfl, (enters source false _ _ awake).2⟩
  | none =>
    by_cases executes : m.Executes
    · -- the lines, the codes and the wait are those of the other machine
      have executes' : n.Executes := by
        unfold Executes at executes ⊢
        rwa [← lines, ← registers, ← wait]
      obtain ⟨after, gives⟩ := work_of_executes executes
      obtain ⟨after', gives'⟩ := work_of_executes executes'
      rw [after, after', gives, gives']
      exact h.executeNext arms visits _ _ awake
    · have idles : ¬n.Executes := by
        unfold Executes at executes ⊢
        rwa [← lines, ← registers, ← wait]
      obtain ⟨after, gives⟩ := work_of_idle accepted executes
      obtain ⟨after', gives'⟩ := work_of_idle (lines ▸ registers ▸ accepted) idles
      rw [after, after', gives, gives']
      exact ⟨rfl, hmn⟩

end Frame

/-! ### Invariants -/

section Kept

variable {μ α γ : Type}

/-- A part of the processor is what it was. -/
def Kept (part : Cpu → γ) (value : γ) (m n : Machine μ) : Prop := m = n ∧ part m.cpu = value

/-- A change that keeps a part of the processor keeps its value. -/
theorem agree_kept {part : Cpu → γ} {value : γ} {f : Cpu → Cpu}
    (h : ∀ cpu, part (f cpu) = part cpu) :
    Agree (Kept (μ := μ) part value) (modifyCpu f) (modifyCpu f) := by
  rintro m _ ⟨rfl, hm⟩
  exact ⟨rfl, rfl, (h m.cpu).trans hm⟩

/-- A part of the processor that signals and plain changes leave alone is kept. -/
theorem frame_kept [Memory μ] {part : Cpu → γ}
    (absorb : ∀ cpu signal, part (Cpu.absorb cpu signal) = part cpu)
    (plain : ∀ f, Plain f → ∀ cpu, part (f cpu) = part cpu) (value : γ) :
    Frame (Kept (μ := μ) part value) := by
  constructor
  case silent_eq =>
    rintro m _ ⟨rfl, -⟩
    rfl
  -- what an access signals is absorbed, which keeps the part
  case load =>
    rintro address m _ ⟨rfl, hm⟩
    exact ⟨rfl, rfl, (Cpu.foldl_absorb absorb _ m.cpu).trans hm⟩
  case store =>
    rintro address byte m _ ⟨rfl, hm⟩
    exact ⟨rfl, rfl, (Cpu.foldl_absorb absorb _ m.cpu).trans hm⟩
  case modifyCpu => exact fun f hf => agree_kept (plain f hf)

/-- An action that agrees with itself in keeping a part keeps it. -/
theorem Agree.kept {part : Cpu → γ} {x : Exec μ α} (m : Machine μ)
    (h : Agree (Kept part (part m.cpu)) x x) : part (m.after x).cpu = part m.cpu :=
  (h m m ⟨rfl, rfl⟩).2.2

end Kept

end Machine

end Machine6809
