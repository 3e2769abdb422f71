import Machine6809.Proofs.Machine.Edges
import Machine6809.Proofs.Machine.Faulting
import Machine6809.Proofs.Machine.Stores
import Machine6809.Proofs.Machine.Waiting
import Mathlib.Data.Nat.Notation

/-!
# A pull undoes a push

PSHS and PSHU lay down the registers that a list names below their stack pointer, and PULS and PULU
with the same list take them up again. Which registers are named, and in which order their bytes
lie, is the same on both sides (`Stack.selected`), so the bytes between the two are all that the one
has to know of the other. A pull sets one register after the other, and no two names on a list are
for the same one: a register has the value from the list if its bit is set and its own if it is not
(`registers_pulled`).

`pull_undoes_push` is about two steps with anything in between that leaves the frame alone and
returns to the same stack pointer.
-/

namespace Machine6809

/-! ### Registers by name -/

namespace Registers

variable {r q : Registers} {name other : RegisterName} {names : List RegisterName}

/-- The registers are known by what is read, D being no register of its own. -/
theorem ext_read (h : ∀ name, name ≠ .d → r.read name = q.read name) : r = q := by
  -- the byte registers are read with a high byte of zero, which loses nothing
  have byte {b c : Byte} (same : b.toUInt16 = c.toUInt16) : b = c := by
    simpa only [lowByte_toUInt16] using congrArg lowByte same
  have codes : r.cc = q.cc := by
    rw [← Flags.ofByte_toByte r.cc, byte (h .cc nofun), Flags.ofByte_toByte]
  cases r
  cases q
  simp only [Registers.mk.injEq]
  exact ⟨byte (h .a nofun), byte (h .b nofun), h .x nofun, h .y nofun, h .u nofun, h .s nofun,
    h .pc nofun, byte (h .dp nofun), codes⟩

/-- A register that was restored has the value it was restored to. -/
theorem read_assign_self (hd : name ≠ .d) (r q : Registers) :
    (q.assign name (r.read name)).read name = r.read name := by
  cases name with
  | d => exact absurd rfl hd
  | a | b | dp | cc => simp only [assign, read, lowByte_toUInt16, Flags.ofByte_toByte]
  | x | y | u | s | pc => rfl

theorem read_assign_pointer (stack : Stack) (q : Registers) (value : Word) :
    (q.assign stack.pointer value).read stack.pointer = value := by
  cases stack <;> rfl

/-- Other registers keep theirs. D is left out here, since it is made of two. -/
theorem read_assign_of_ne (h : other ≠ name) (hd : name ≠ .d) (hd' : other ≠ .d) (q : Registers)
    (value : Word) : (q.assign name value).read other = q.read other := by
  cases name <;> cases other <;> first | contradiction | rfl

/-- Assigned one after the other, the registers named have the new values and the others the old. -/
theorem read_foldl_assign (hd : .d ∉ names) (hname : name ≠ .d) (r q : Registers) :
    (names.foldl (fun q name => q.assign name (r.read name)) q).read name
      = if name ∈ names then r.read name else q.read name := by
  -- register by register, the first of them being restored before the others
  induction names generalizing q with
  | nil => rfl
  | cons first names ih =>
    have hfirst : first ≠ .d := (List.ne_of_not_mem_cons hd).symm
    rw [List.foldl_cons, ih (List.not_mem_of_not_mem_cons hd)]
    by_cases same : name = first
    · subst same
      simp [read_assign_self hname]
    · simp [same, read_assign_of_ne same hfirst hname]

end Registers

namespace Stack

/-- D is pushed as A and B. -/
theorem d_not_mem_selected (stack : Stack) (list : Byte) : .d ∉ stack.selected list := by
  cases stack <;> simp [selected, registers, other]

/-- D is not a stack pointer. -/
theorem pointer_ne_d (stack : Stack) : stack.pointer ≠ .d := by
  cases stack <;> exact nofun

/-- A register is selected by the bit at its place. -/
theorem mem_selected {stack : Stack} {name : RegisterName} (h : name ∈ stack.registers)
    (list : Byte) :
    name ∈ stack.selected list ↔ bitOf list (stack.registers.idxOf name) = true := by
  have nodup : stack.registers.Nodup := by cases stack <;> decide
  -- a register has one place in the order of its stack
  have place (i : ℕ) : (name, i) ∈ stack.registers.zipIdx ↔ i = stack.registers.idxOf name := by
    rw [List.mem_zipIdx_iff_getElem?, List.getElem?_eq_some_iff]
    constructor
    · rintro ⟨hi, at_i⟩
      have first := nodup.idxOf_getElem i hi
      rwa [at_i, eq_comm] at first
    · rintro rfl
      exact ⟨List.idxOf_lt_length_iff.mpr h, List.getElem_idxOf _⟩
  simp [selected, place]

/-- The registers after a pull: those that the list names are the `saved` ones and the others are as
they are `later`. The pointer of the stack itself is where it was before the push. -/
def pulled (stack : Stack) (list : Byte) (saved later : Registers) : Registers :=
  { cc := if bitOf list 0 then saved.cc else later.cc
    a := if bitOf list 1 then saved.a else later.a
    b := if bitOf list 2 then saved.b else later.b
    dp := if bitOf list 3 then saved.dp else later.dp
    x := if bitOf list 4 then saved.x else later.x
    y := if bitOf list 5 then saved.y else later.y
    u := match stack with
      | .system => if bitOf list 6 then saved.u else later.u
      | .user => saved.u
    s := match stack with
      | .system => saved.s
      | .user => if bitOf list 6 then saved.s else later.s
    pc := if bitOf list 7 then saved.pc else later.pc }

/-- The opcodes of PSHS and PSHU. -/
def pushCode : Stack → Byte
  | .system => 0x34
  | .user => 0x36

/-- The opcodes of PULS and PULU. -/
def pullCode : Stack → Byte
  | .system => 0x35
  | .user => 0x37

end Stack

/-- Pulling restores register by register what the list selects. -/
theorem registers_pulled (stack : Stack) (list : Byte) (saved later : Registers) :
    ((stack.selected list).foldl (fun q name => q.assign name (saved.read name)) later).assign
        stack.pointer (saved.read stack.pointer)
      = stack.pulled list saved later := by
  refine Registers.ext_read fun name hd => ?_
  by_cases pointer : name = stack.pointer
  · subst pointer
    rw [Registers.read_assign_pointer]
    cases stack <;> rfl
  · have listed : name ∈ stack.registers := by
      cases stack <;> cases name <;> first | contradiction | decide
    rw [Registers.read_assign_of_ne pointer stack.pointer_ne_d hd,
      Registers.read_foldl_assign (stack.d_not_mem_selected list) hd,
      if_congr (Stack.mem_selected listed list) rfl rfl]
    -- what is left to do for a word is nothing, and for a byte to widen it after the choice
    cases stack <;> cases name <;> first
      | contradiction
      | rfl
      | exact (apply_ite UInt8.toUInt16 ..).symm
      | exact (apply_ite (fun cc : Flags => cc.toByte.toUInt16) ..).symm

/-- The registers with PC past an instruction of two bytes. -/
def Registers.past (r : Registers) : Registers := { r with pc := r.pc + 2 }

namespace Machine

/-! ### Instructions with an operand byte of their own -/

section Immediate

variable {m : Machine Ram} {row : Instruction} {first value : Byte}

/-- In plain memory such an instruction is known by its two bytes, and when its operand is located
PC is past both. -/
theorem locates_immediate (h : m.memory.Holds m.cpu.registers.pc [first, value])
    (plain : first ≠ 0x10 ∧ first ≠ 0x11)
    (lookup : OpcodeMap.lookup? first.toUInt16 = some row) (mode : row.mode = .imm8) :
    m.Locates row { address := m.cpu.registers.pc + 1, bytes := [value], cycles := 0 } ∧
      Consumed 2 m (m.located row) := by
  obtain ⟨hfirst, hvalue, -⟩ := h
  obtain ⟨gives, after⟩ := fetchOpcode_single (m := m) ⟨hfirst, trivial⟩ plain.1 plain.2
  -- one byte of opcode
  have opened : m.opened = m.decoded 1 := by
    rw [Machine.opened, after]
    rfl
  have resolved : (m.decoded 1).gives (resolve .imm8 row.code m.cpu.registers.pc)
      = .ok { address := m.cpu.registers.pc + 1,
              bytes := [m.memory.read (m.cpu.registers.pc + 1)], cycles := 0 } := rfl
  constructor
  · refine ⟨by rw [gives]; exact lookup, ?_⟩
    rw [opened, mode, resolved, hvalue]
  · rw [located, opened, mode]
    -- the operand is loaded from where PC was, which changes nothing in plain memory
    have two : m.cpu.registers.pc + UInt16.ofNat 2 = m.cpu.registers.pc + 1 + 1 := by grind
    refine ⟨rfl, ?_, rfl, rfl, rfl, rfl⟩
    rw [two]
    rfl

end Immediate

/-! ### Costs -/

section Costs

variable {μ : Type} [Memory μ] {m : Machine μ} {row : Instruction} {operand : Located} {used : ℕ}

/-- A push costs a cycle for each byte. -/
theorem gives_pushFrame (stack : Stack) (list : Byte) (m : Machine μ) :
    m.gives (pushFrame stack list) = listedBytes list :=
  length_frame_listed m.cpu.registers stack list

theorem gives_pullRegister (stack : Stack) (name : RegisterName) (r : Registers) (m : Machine μ) :
    m.gives (pullRegister stack name) = (r.bytes name).length := by
  simp only [pullRegister, Registers.bytes, gives_ite]
  split_ifs <;> rfl

theorem gives_pullRegisters (stack : Stack) (names : List RegisterName) (r : Registers)
    (m : Machine μ) :
    m.gives (pullRegisters stack names) = (names.flatMap r.bytes).length := by
  induction names generalizing m with
  | nil => rfl
  | cons name names ih =>
    rw [List.flatMap_cons, List.length_append, ← gives_pullRegister stack name r m,
      ← ih (m.after (pullRegister stack name))]
    rfl

theorem gives_pullFrame (stack : Stack) (list : Byte) (m : Machine μ) :
    m.gives (pullFrame stack list) = listedBytes list :=
  (gives_pullRegisters stack _ m.cpu.registers m).trans
    (length_frame_listed m.cpu.registers stack list)

/-- A step that executes an instruction without a fault gives its cost and leaves what it leaves. -/
theorem exists_step (executes : m.started.Executes)
    (success : m.started.awake.gives executeNext = .ok used) :
    ∃ m', m.step = (.ok used, m') ∧
      m'.cpu.registers = (m.started.awake.after executeNext).cpu.registers ∧
      m'.cpu.lines = (m.started.awake.after executeNext).cpu.lines ∧
      m'.memory = (m.started.awake.after executeNext).memory := by
  obtain ⟨after, gives⟩ := work_of_executes executes
  -- the cycles counted by the step are those of the instruction
  have total : ((m.started.after work).finished used).cpu.totalCycles - m.cpu.totalCycles
      = used := by
    show (m.started.after work).cpu.totalCycles + used - m.cpu.totalCycles = used
    rw [totalCycles_work]
    exact Nat.add_sub_cancel_left ..
  have step := step_of_ok (gives.trans success)
  rw [total, after] at step
  exact ⟨_, step, rfl, rfl, rfl⟩

end Costs

/-! ### Pushing and pulling a frame -/

section Frames

variable {m m' : Machine Ram} {stack : Stack} {list : Byte} {saved : Registers}

/-- From `m` to `m'` a frame is pushed: the registers that the list names, PC past the instruction,
lie in memory from the new top of the stack upward. But for the frame memory is what it was, and the
stack pointer and PC are the only registers that change. -/
structure FramePushed (stack : Stack) (list : Byte) (m m' : Machine Ram) : Prop where
  registers : m'.cpu.registers = m.cpu.registers.past.assign stack.pointer
    (m.top stack - UInt16.ofNat (listedBytes list))
  laid : Ram.LaidDown (m'.top stack) (m.cpu.registers.past.frame stack list) m.memory m'.memory

/-- From `m` to `m'` the frame of the `saved` registers is pulled. Memory stays as it is, and so do
the interrupt lines, except that S arms NMI when it is pulled. -/
structure FramePulled (stack : Stack) (list : Byte) (saved : Registers) (m m' : Machine Ram) :
    Prop where
  registers : m'.cpu.registers = stack.pulled list saved m.cpu.registers.past
  memory : m'.memory = m.memory
  lines : m'.cpu.lines
    = if stack = .user ∧ bitOf list 6 then { m.cpu.lines with nmiArmed := true } else m.cpu.lines

/-- The top of a stack is in the registers. -/
theorem top_congr {r : Registers} (h : m.cpu.registers = r) : m.top stack = r.read stack.pointer :=
  congrArg (Registers.read · stack.pointer) h

/-- The pointer has moved down by the bytes of the frame. -/
theorem FramePushed.top (h : FramePushed stack list m m') :
    m'.top stack = m.top stack - UInt16.ofNat (listedBytes list) := by
  rw [top_congr h.registers, Registers.read_assign_pointer]

/-- A frame is laid down below the top, and the pointer ends at its first byte. -/
theorem framePushed_pushFrame (hs : m.memory.contents.size = Ram.maxSize) (stack : Stack)
    (list : Byte) :
    (m.after (pushFrame stack list)).cpu.registers = m.cpu.registers.assign stack.pointer
        (m.top stack - UInt16.ofNat (listedBytes list)) ∧
      Ram.LaidDown (m.top stack - UInt16.ofNat (listedBytes list))
        (m.cpu.registers.frame stack list) m.memory (m.after (pushFrame stack list)).memory := by
  have length := length_frame_listed m.cpu.registers stack list
  -- at most twelve bytes, which memory has room for
  have few : listedBytes list ≤ Ram.maxSize := by
    unfold listedBytes
    have first := List.countP_le_length (p := bitOf list) (l := List.range 8)
    have second := List.countP_le_length (p := bitOf list) (l := List.range' 4 4)
    simp only [List.length_range, List.length_range', Ram.maxSize] at first second ⊢
    omega
  have pointer := cpu_after_pushBytes stack (m.cpu.registers.frame stack list).reverse m
  rw [List.length_reverse, length] at pointer
  refine ⟨congrArg Cpu.registers pointer, ?_⟩
  rw [← length] at few ⊢
  exact laidDown_pushBytes hs few

/-- From where the registers of a frame lie, a pull takes what the list names. -/
theorem registers_pullFrame (top : m.top stack + UInt16.ofNat (listedBytes list)
      = saved.read stack.pointer)
    (h : m.memory.Holds (m.top stack) (saved.frame stack list)) :
    (m.after (pullFrame stack list)).memory = m.memory ∧
      (m.after (pullFrame stack list)).cpu.registers
        = stack.pulled list saved m.cpu.registers := by
  have after : m.after (pullFrame stack list)
      = (m.restore saved (stack.selected list)).withTop stack (saved.read stack.pointer) := by
    rw [← top, ← length_frame_listed saved stack list]
    exact after_pullRegisters (stack.pointer_not_mem_selected list) h
  rw [after, memory_withTop, memory_restore, ← registers_pulled, ← registers_restore]
  exact ⟨rfl, rfl⟩

end Frames

/-! ### The four instructions -/

section Instructions

variable {stack : Stack} {list : Byte} {saved : Registers}

/-- A row of the system table is found by its code. -/
theorem lookup_of_code {row : Instruction} {code : Word} (hrow : row ∈ OpcodeMap.systemRows)
    (hcode : row.code = code) : OpcodeMap.lookup? code = some row :=
  hcode ▸ OpcodeMap.lookup_systemRow row hrow

/-- PSHS and PSHU. -/
theorem lookup_pushCode (stack : Stack) :
    ∃ row, OpcodeMap.lookup? stack.pushCode.toUInt16 = some row ∧ row.mode = .imm8 ∧
      row.cycles = 5 ∧ row.operation = .push stack := by
  cases stack with
  | system =>
    exact ⟨.row 0x34 "PSHS" .imm8 5 (.push .system),
      lookup_of_code (by simp [OpcodeMap.systemRows]) (by decide), rfl, rfl, rfl⟩
  | user =>
    exact ⟨.row 0x36 "PSHU" .imm8 5 (.push .user),
      lookup_of_code (by simp [OpcodeMap.systemRows]) (by decide), rfl, rfl, rfl⟩

/-- PULS and PULU. -/
theorem lookup_pullCode (stack : Stack) :
    ∃ row, OpcodeMap.lookup? stack.pullCode.toUInt16 = some row ∧ row.mode = .imm8 ∧
      row.cycles = 5 ∧ row.operation = .pull stack := by
  cases stack with
  | system =>
    exact ⟨.row 0x35 "PULS" .imm8 5 (.pull .system),
      lookup_of_code (by simp [OpcodeMap.systemRows]) (by decide), rfl, rfl, rfl⟩
  | user =>
    exact ⟨.row 0x37 "PULU" .imm8 5 (.pull .user),
      lookup_of_code (by simp [OpcodeMap.systemRows]) (by decide), rfl, rfl, rfl⟩

/-- An instruction whose operation stores nothing stores nothing. -/
theorem Locates.storeless {μ : Type} [Memory μ] {m : Machine μ} {row : Instruction}
    {operand : Located} (h : m.Locates row operand) (nothing : row.operation.stores = false) :
    m.instructionStores = [] := by
  rw [instructionStores, (locates_watched.mpr h).after, storeless_noteExecuted,
    storeless_perform nothing, stores_located rfl row]

variable {m : Machine Ram}

/-- Consuming bytes leaves the stacks alone. -/
theorem Consumed.top {n : ℕ} {m' : Machine Ram} (h : Consumed n m m') (stack : Stack) :
    m'.top stack = m.top stack := by
  rw [top_congr h.registers]
  cases stack <;> rfl

/-- A push instruction pushes what its list selects. -/
theorem perform_push (stack : Stack) (address : Word) (m : Machine Ram) :
    m.after (perform (.push stack) address)
        = m.after (pushFrame stack (m.memory.read address)) ∧
      m.gives (perform (.push stack) address)
        = m.gives (pushFrame stack (m.memory.read address)) :=
  ⟨rfl, rfl⟩

theorem perform_pull (stack : Stack) (address : Word) (m : Machine Ram) :
    m.after (perform (.pull stack) address)
        = m.after (pullFrame stack (m.memory.read address)) ∧
      m.gives (perform (.pull stack) address)
        = m.gives (pullFrame stack (m.memory.read address)) :=
  ⟨rfl, rfl⟩

/-- As an instruction, a push costs five cycles and one for each byte. -/
theorem executeNext_push (hs : m.memory.contents.size = Ram.maxSize)
    (h : m.memory.Holds m.cpu.registers.pc [stack.pushCode, list]) :
    m.gives executeNext = .ok (5 + listedBytes list) ∧
      FramePushed stack list m (m.after executeNext) := by
  obtain ⟨row, lookup, mode, cycles, operation⟩ := lookup_pushCode stack
  have plain : stack.pushCode ≠ 0x10 ∧ stack.pushCode ≠ 0x11 := by cases stack <;> decide
  -- the list is found behind the opcode
  obtain ⟨locates, consumed⟩ := locates_immediate h plain lookup mode
  have byte : (m.located row).memory.read (m.cpu.registers.pc + 1) = list := by
    rw [consumed.memory]
    exact h.2.1
  have gives := locates.cost
  have after := locates.after
  rw [operation] at gives after
  generalize m.located row = n at consumed byte gives after
  obtain ⟨performed, cost⟩ := perform_push stack (m.cpu.registers.pc + 1) n
  rw [byte] at performed cost
  rw [cost, gives_pushFrame, cycles] at gives
  rw [performed] at after
  -- PC is past the instruction when the frame is laid down
  have registers : n.cpu.registers = m.cpu.registers.past := consumed.registers
  obtain ⟨pointer, laid⟩ := framePushed_pushFrame (consumed.memory ▸ hs) stack list
  rw [registers, consumed.top] at pointer laid
  rw [consumed.memory] at laid
  have done : (m.after executeNext).cpu.registers
      = m.cpu.registers.past.assign stack.pointer
        (m.top stack - UInt16.ofNat (listedBytes list)) := by
    rw [after, registers_noteExecuted, pointer]
  have memory : (m.after executeNext).memory = (n.after (pushFrame stack list)).memory := by
    rw [after]
    rfl
  refine ⟨gives, done, ?_⟩
  rw [memory, top_congr done, Registers.read_assign_pointer]
  exact laid

/-- So does a pull, which brings back what was pushed. -/
theorem executeNext_pull (h : m.memory.Holds m.cpu.registers.pc [stack.pullCode, list])
    (top : m.top stack + UInt16.ofNat (listedBytes list) = saved.read stack.pointer)
    (frame : m.memory.Holds (m.top stack) (saved.frame stack list)) :
    m.gives executeNext = .ok (5 + listedBytes list) ∧
      FramePulled stack list saved m (m.after executeNext) ∧ m.instructionStores = [] := by
  obtain ⟨row, lookup, mode, cycles, operation⟩ := lookup_pullCode stack
  have plain : stack.pullCode ≠ 0x10 ∧ stack.pullCode ≠ 0x11 := by cases stack <;> decide
  obtain ⟨locates, consumed⟩ := locates_immediate h plain lookup mode
  have nothing : row.operation.stores = false := by
    rw [operation]
    rfl
  -- the list is where the operand has been located
  have byte : (m.located row).memory.read (m.cpu.registers.pc + 1) = list := by
    rw [consumed.memory]
    exact h.2.1
  have gives := locates.cost
  have after := locates.after
  rw [operation] at gives after
  refine ⟨?cost, ?pulled, locates.storeless nothing⟩
  -- both parts are about the machine that has located its operand
  all_goals generalize m.located row = n at consumed byte gives after
  all_goals obtain ⟨performed, cost⟩ := perform_pull stack (m.cpu.registers.pc + 1) n
  all_goals rw [byte] at performed cost
  case cost =>
    rw [cost, gives_pullFrame, cycles] at gives
    exact gives
  case pulled =>
    have registers : n.cpu.registers = m.cpu.registers.past := consumed.registers
    -- S may be loaded by PULU, which arms NMI
    have lines := lines_perform (.pull stack) (m.cpu.registers.pc + 1) n
    rw [consumed.lines, gives_load, byte] at lines
    rw [← consumed.top, ← consumed.memory] at frame
    rw [← consumed.top] at top
    obtain ⟨memory, pulled⟩ := registers_pullFrame top frame
    constructor
    case registers => rw [after, registers_noteExecuted, performed, pulled, registers]
    case memory =>
      rw [after, performed]
      exact memory.trans consumed.memory
    case lines =>
      rw [after, lines_kept fun h => h.noteExecuted _ _ _, lines]
      by_cases bit : bitOf list 6 = true <;> cases stack <;>
        simp [Operation.loadsS, InterruptLines.arm, bit]

end Instructions

/-! ### There and back again -/

section Undoing

/-- **A pull undoes a push.** Whatever the registers hold, and wherever in a memory of 64K the stack
is, also around address zero: a step that executes PSHS or PSHU lays down the frame of its list at a
cost of five cycles and one for each byte. From then on anything may happen. Whenever the stack
pointer is back there and the bytes of the frame are the same, a step that executes the pull with
the same list gives the registers on the list the values from before the push, PC being past it, and
the stack pointer the value from before the push. It leaves the other registers alone, except for
PC, which moves past the pull, stores nothing, and costs the same. Of the interrupt lines it changes
that a pull of S arms NMI. -/
theorem pull_undoes_push (stack : Stack) (list : Byte) (m : Machine Ram)
    (hs : m.memory.contents.size = Ram.maxSize) (executes : m.started.Executes)
    (push : m.memory.Holds m.started.cpu.registers.pc [stack.pushCode, list]) :
    ∃ m', m.step = (.ok (5 + listedBytes list), m') ∧ FramePushed stack list m.started m' ∧
      ∀ later : Machine Ram, later.started.top stack = m'.top stack →
        (∀ k < listedBytes list, later.memory.read (m'.top stack + UInt16.ofNat k)
          = m'.memory.read (m'.top stack + UInt16.ofNat k)) →
        later.started.Executes →
        later.memory.Holds later.started.cpu.registers.pc [stack.pullCode, list] →
        ∃ later', later.step = (.ok (5 + listedBytes list), later') ∧
          FramePulled stack list m.started.cpu.registers.past later.started later' ∧
          later.eventStores .step = [] := by
  obtain ⟨cost, registers, laid⟩ := executeNext_push (m := m.started.awake) hs push
  obtain ⟨m', step, registers', -, memory'⟩ := exists_step executes cost
  have pushed : FramePushed stack list m.started m' := by
    refine ⟨registers'.trans registers, ?_⟩
    rw [top_congr registers', memory']
    exact laid
  refine ⟨m', step, pushed, fun later back same executes' pull => ?_⟩
  -- the bytes of the frame are all that the pull has to find
  have frame : later.memory.Holds (later.started.top stack)
      (m.started.cpu.registers.past.frame stack list) := by
    rw [back]
    refine pushed.laid.holds.of_reads fun k hk => same k ?_
    rwa [length_frame_listed] at hk
  -- the pull ends where the push began
  have top : later.started.top stack + UInt16.ofNat (listedBytes list)
      = m.started.cpu.registers.past.read stack.pointer := by
    rw [back, pushed.top, UInt16.sub_add_cancel]
    cases stack <;> rfl
  obtain ⟨cost, pulled, nothing⟩ := executeNext_pull (m := later.started.awake) pull top frame
  obtain ⟨later', step, registers', lines', memory'⟩ := exists_step executes' cost
  refine ⟨later', step, ⟨?_, ?_, ?_⟩, ?_⟩
  · exact registers'.trans pulled.registers
  · exact memory'.trans pulled.memory
  · exact lines'.trans pulled.lines
  · have watched := (work_of_executes (m := later.started.watched) executes').1
    rw [eventStores_of_works (e := .step) trivial, watched]
    exact nothing

/-- Memory with an instruction of two bytes put into it. -/
def putInstruction (ram : Ram) (address : Word) (code list : Byte) : Ram :=
  (ram.write address code).write (address + 1) list

/-- An instruction that was put into memory is there. -/
theorem holds_putInstruction {ram : Ram} (hs : ram.contents.size = Ram.maxSize) (address : Word)
    (code list : Byte) : (putInstruction ram address code list).Holds address [code, list] := by
  have next : address + 1 ≠ address := by grind
  refine ⟨?_, Ram.read_write_self ((Ram.size_write _ _ _).trans hs) _ _, trivial⟩
  exact (Ram.read_write_of_ne next _ _).trans (Ram.read_write_self hs _ _)

/-- A machine about to push all registers on a user stack that the frame takes below address
zero. -/
def pushingAround : Machine Ram :=
  { cpu :=
      { Cpu.initial with
        registers :=
          { Registers.zero with a := 1, x := 0x0203, s := 0x0405, u := 4, pc := 0x2000 } }
    memory := putInstruction (Ram.zeroed Ram.maxSize) 0x2000 0x36 0xFF }

/-- Some time later, about to pull them again. -/
def pullingAround (memory : Ram) : Machine Ram :=
  { cpu :=
      { Cpu.initial with registers := { Registers.zero with u := 0xFFF8, pc := 0x1000 } }
    memory := putInstruction memory 0x1000 0x37 0xFF }

/-- All registers are pushed below address zero and pulled again. -/
theorem pull_undoes_push_around :
    pushingAround.memory.contents.size = Ram.maxSize ∧ pushingAround.started.Executes ∧
      ∃ m' later', pushingAround.step = (.ok 17, m') ∧
        (pullingAround m'.memory).step = (.ok 17, later') ∧
        later'.cpu.registers = { pushingAround.cpu.registers with pc := 0x2002 } ∧
        later'.cpu.lines.nmiArmed = true := by
  have blank : (Ram.zeroed Ram.maxSize).contents.size = Ram.maxSize := Array.size_replicate
  have size : pushingAround.memory.contents.size = Ram.maxSize :=
    (Ram.size_write _ _ _).trans ((Ram.size_write _ _ _).trans blank)
  have executes : pushingAround.started.Executes := ⟨rfl, .inl rfl⟩
  obtain ⟨m', step, pushed, pull⟩ := pull_undoes_push .user 0xFF pushingAround size executes
    (holds_putInstruction blank 0x2000 0x36 0xFF)
  have top : m'.top .user = 0xFFF8 := pushed.top.trans (by decide)
  -- the pull is put where the frame is not
  have apart : ∀ k < 12, (0x1000 : Word) ≠ 0xFFF8 + UInt16.ofNat k ∧
      (0x1001 : Word) ≠ 0xFFF8 + UInt16.ofNat k := by decide
  -- so the frame is still there
  have same : ∀ k < listedBytes 0xFF,
      (pullingAround m'.memory).memory.read (m'.top .user + UInt16.ofNat k)
        = m'.memory.read (m'.top .user + UInt16.ofNat k) := by
    intro k hk
    obtain ⟨first, second⟩ := apart k hk
    rw [top]
    exact (Ram.read_write_of_ne second _ _).trans (Ram.read_write_of_ne first _ _)
  obtain ⟨later', step', pulled, -⟩ := pull (pullingAround m'.memory) top.symm same
    ⟨rfl, .inl rfl⟩ (holds_putInstruction (pushed.laid.size.trans size) 0x1000 0x37 0xFF)
  refine ⟨size, executes, m', later', step, step', pulled.registers.trans rfl, ?_⟩
  -- PULU of S arms NMI
  rw [pulled.lines]
  rfl

end Undoing

end Machine

end Machine6809
