import Machine6809.Proofs.Machine.Executing
import Machine6809.Proofs.Machine.Stacks
import Mathlib.Data.Nat.Notation
import Mathlib.Tactic.SplitIfs

/-!
# A return undoes every entry

A handler is entered in several ways: an interrupt is accepted while the machine runs or is halted
by SYNC, one of three instructions interrupts the program itself, or CWAI pushes the frame ahead of
an interrupt that comes later. There are two frames, the short one of FIRQ and the entire state, and
there is one way out. RTI does not know how its handler was entered. It goes by the E that it
pulls, and so the point is that each entry saves with E what it has saved besides.

`Machine.Enters` is what all entries have in common: the frame is laid down below S, and S points at
it. RTI from such a frame is `registers_returnFromInterrupt`. `rti_undoes_entry` puts the two
together, with anything in between that leaves the frame alone and returns to the same S.
-/

namespace Machine6809

/-- The codes can be read back from their byte. -/
theorem Flags.ofByte_toByte (cc : Flags) : Flags.ofByte cc.toByte = cc := by
  have : ∀ e f h i n z v c : Bool, Flags.ofByte (Flags.toByte ⟨e, f, h, i, n, z, v, c⟩) =
      ⟨e, f, h, i, n, z, v, c⟩ := by decide +kernel
  exact this _ _ _ _ _ _ _ _

namespace Machine

/-! ### Pushing a frame -/

/-- From `m` to `m'` a frame was pushed on the system stack. -/
structure Stacked (frame : List Byte) (m m' : Machine Ram) : Prop where
  pointer : m'.top .system = m.top .system - UInt16.ofNat frame.length
  laid : Ram.LaidDown (m'.top .system) frame m.memory m'.memory

section Frames

variable {m m' m₁ m₂ : Machine Ram} {frame : List Byte}

theorem length_frame_entireState (r : Registers) :
    (r.frame .system entireState).length = 12 := rfl

theorem length_frame_returnState (r : Registers) :
    (r.frame .system returnState).length = 3 := rfl

/-- At either end the stack pointer and memory are all that matters. -/
theorem Stacked.congr (h : Stacked frame m₁ m₂)
    (top₁ : m₁.top .system = m.top .system) (memory₁ : m₁.memory = m.memory)
    (top₂ : m₂.top .system = m'.top .system) (memory₂ : m₂.memory = m'.memory) :
    Stacked frame m m' := by
  refine ⟨?_, ?_⟩
  · rw [← top₁, ← top₂, h.pointer]
  · rw [← top₂, ← memory₁, ← memory₂]
    exact h.laid

/-- What an executed instruction has pushed is pushed by the instruction. -/
theorem Executed.stacked (h : Executed m m') (hm : Stacked frame m m') :
    Stacked frame m (m.after executeNext) :=
  hm.congr rfl rfl (congrArg Registers.s h.registers).symm h.memory.symm

/-- The masks of the interrupts are set after the frame has been pushed. -/
theorem Stacked.maskInterrupts (h : Stacked frame m m') :
    Stacked frame m (m'.after maskInterrupts) := h.congr rfl rfl rfl rfl

/-- A vector is fetched without touching the stack. -/
theorem Stacked.gotoVector (h : Stacked frame m m') (vector : Word) :
    Stacked frame m (m'.after (gotoVector vector)) := h.congr rfl rfl rfl rfl

/-- The machine halted by CWAI. -/
def halted (m : Machine Ram) : Machine Ram := { m with cpu := { m.cpu with wait := .cwai } }

theorem top_halted (m : Machine Ram) : m.halted.top .system = m.top .system := rfl

theorem memory_halted (m : Machine Ram) : m.halted.memory = m.memory := rfl

/-- Pushing a list of registers pushes their frame. -/
theorem stacked_pushFrame (hs : m.memory.contents.size = Ram.maxSize) (list : Byte)
    (hl : (m.cpu.registers.frame .system list).length ≤ Ram.maxSize) :
    Stacked (m.cpu.registers.frame .system list) m (m.after (pushFrame .system list)) := by
  have pointer : (m.after (pushFrame .system list)).top .system =
      m.top .system - UInt16.ofNat (m.cpu.registers.frame .system list).length := by
    rw [← List.length_reverse]
    exact congrArg (fun cpu : Cpu => cpu.registers.s) (cpu_after_pushBytes .system _ m)
  refine ⟨pointer, ?_⟩
  rw [pointer]
  exact laidDown_pushBytes hs hl

/-- E says which of the two frames it is, and is pushed with it. -/
theorem stacked_pushMarked (hs : m.memory.contents.size = Ram.maxSize) (e : Bool) {list : Byte}
    (hl : ∀ r : Registers, (r.frame .system list).length ≤ Ram.maxSize) :
    Stacked (Registers.frame
        { m.cpu.registers with cc := { m.cpu.registers.cc with e } } .system list) m
      ((m.after (modifyRegisters fun r => { r with cc := { r.cc with e } })).after
        (pushFrame .system list)) := by
  rw [after_modifyRegisters]
  have h := stacked_pushFrame (m := { m with cpu := { m.cpu with registers :=
    { m.cpu.registers with cc := { m.cpu.registers.cc with e } } } }) hs list (hl _)
  exact h.congr rfl rfl rfl rfl

/-- Pushing the whole state pushes its frame, with E set. -/
theorem stacked_pushEntireState (hs : m.memory.contents.size = Ram.maxSize) :
    Stacked (Registers.frame
        { m.cpu.registers with cc := { m.cpu.registers.cc with e := true } } .system entireState)
      m (m.after pushEntireState) := by
  rw [pushEntireState, after_bind, after_bind, after_pure]
  refine stacked_pushMarked hs true fun r => ?_
  rw [length_frame_entireState]
  decide

end Frames

end Machine

/-! ### Entries -/

/-- A way into a handler. -/
inductive Entry where
  /-- An interrupt that is accepted while the machine runs or is halted by SYNC. -/
  | interrupt (source : InterruptSource)
  | swi
  | swi2
  | swi3
  /-- The frame is pushed now, for an interrupt that is accepted some time later. -/
  | cwai (mask : Byte)

namespace Entry

/-- The instruction that is the entry, if one is. -/
def instruction : Entry → List Byte
  | .interrupt _ => []
  | .swi => [0x3F]
  | .swi2 => [0x10, 0x3F]
  | .swi3 => [0x11, 0x3F]
  | .cwai mask => [0x3C, mask]

/-- The next work of the machine is the entry. -/
def Begins (entry : Entry) (m : Machine Ram) : Prop :=
  match entry with
  | .interrupt source =>
    m.cpu.wait ≠ .cwai ∧ m.cpu.lines.accepted m.cpu.registers.cc = some source
  | entry => m.Executes ∧ m.memory.Holds m.cpu.registers.pc entry.instruction

/-- The entry saves PC and CC only. -/
def isShort : Entry → Bool
  | .interrupt .firq => true
  | _ => false

/-- The condition codes as the entry saves them. -/
def codes (entry : Entry) (cc : Flags) : Flags :=
  match entry with
  | .cwai mask => { cc.and (Flags.ofByte mask) with e := true }
  | entry => { cc with e := !entry.isShort }

/-- The registers that the entry saves, PC past its instruction. -/
def saved (entry : Entry) (r : Registers) : Registers :=
  { r with pc := r.pc + UInt16.ofNat entry.instruction.length, cc := entry.codes r.cc }

/-- What the entry pushes. -/
def frame (entry : Entry) (r : Registers) : List Byte :=
  (entry.saved r).frame .system (if entry.isShort then returnState else entireState)

/-- The registers after the return. The short frame brings back PC and CC, and the others are as
they were `later`. -/
def restored (entry : Entry) (before later : Registers) : Registers :=
  if entry.isShort then
    { later with s := before.s, pc := (entry.saved before).pc, cc := (entry.saved before).cc }
  else entry.saved before

/-- An interrupt saves the registers with the codes that it has marked. -/
theorem saved_interrupt (source : InterruptSource) (r : Registers) :
    (Entry.interrupt source).saved r = { r with cc := (Entry.interrupt source).codes r.cc } := by
  simp [saved, instruction]

end Entry

namespace Machine

section Entries

variable {m : Machine Ram} {entry : Entry} {source : InterruptSource}

/-- It pushes the frame that goes with its source. -/
theorem stacked_pushInterruptFrame (hs : m.memory.contents.size = Ram.maxSize)
    (source : InterruptSource) :
    Stacked ((Entry.interrupt source).frame m.cpu.registers) m
      (m.after (pushInterruptFrame source)) := by
  rw [Entry.frame, Entry.saved_interrupt]
  cases source with
  -- the short frame, with E cleared
  | firq =>
    rw [pushInterruptFrame, after_bind, after_bind, after_pure]
    refine stacked_pushMarked hs false fun r => ?_
    show (r.frame .system returnState).length ≤ Ram.maxSize
    rw [length_frame_returnState]
    decide
  | nmi | irq => exact stacked_pushEntireState hs

/-- Entering the interrupt pushes that frame. -/
theorem stacked_enterInterrupt (hs : m.memory.contents.size = Ram.maxSize)
    (source : InterruptSource) :
    Stacked ((Entry.interrupt source).frame m.cpu.registers) m
      (m.after (enterInterrupt source false)) := by
  -- A message and the latch of NMI come before the frame, the masks and the vector after it.
  have around : ∀ m₁ : Machine Ram, m₁.cpu.registers = m.cpu.registers → m₁.memory = m.memory →
      Stacked ((Entry.interrupt source).frame m.cpu.registers) m
        (((m₁.after (pushInterruptFrame source)).after maskInterrupts).after
          (gotoVector source.vector)) := by
    intro m₁ registers memory
    have h := stacked_pushInterruptFrame (m := m₁) (memory ▸ hs) source
    rw [registers] at h
    have pushed := h.congr (congrArg Registers.s registers) memory rfl rfl
    exact pushed.maskInterrupts.gotoVector source.vector
  simp only [enterInterrupt, after_bind, after_registers, gives_registers, after_ite,
    Bool.not_false, if_true]
  split_ifs
  · exact around _ rfl rfl
  · exact around _ rfl rfl

/-- A software interrupt pushes the whole frame. -/
theorem stacked_swi (hs : m.memory.contents.size = Ram.maxSize) (vector address : Word)
    (masks : Bool) :
    Stacked (Registers.frame
        { m.cpu.registers with cc := { m.cpu.registers.cc with e := true } } .system entireState)
      m (m.after (perform (.swi vector masks) address)) := by
  have h := stacked_pushEntireState hs
  simp only [perform, after_bind, after_ite, after_pure]
  split_ifs
  · exact h.maskInterrupts.gotoVector vector
  · exact h.gotoVector vector

/-- CWAI clears codes, pushes, and halts. -/
theorem after_cwai (address : Word) (m : Machine Ram) :
    m.after (perform .cwai address) =
      ((m.after (setFlags (m.cpu.registers.cc.and (Flags.ofByte (m.memory.read address))))).after
        pushEntireState).halted := by
  simp only [perform, after_bind, after_pure, after_load, gives_load, after_registers,
    gives_registers, after_modifyCpu, halted]

/-- So it pushes the whole frame with the codes that are left. -/
theorem stacked_cwai (hs : m.memory.contents.size = Ram.maxSize) (address : Word) :
    Stacked (Registers.frame
        { m.cpu.registers with
          cc :=
            { m.cpu.registers.cc.and (Flags.ofByte (m.memory.read address)) with e := true } }
        .system entireState)
      m (m.after (perform .cwai address)) := by
  have h := stacked_pushEntireState (m := m.after (setFlags
    (m.cpu.registers.cc.and (Flags.ofByte (m.memory.read address))))) hs
  rw [after_cwai]
  exact h.congr rfl rfl (top_halted _).symm (memory_halted _).symm

/-- As an instruction, a software interrupt pushes the frame with PC behind itself. -/
theorem executeNext_swi (row : Instruction) {bytes : List Byte} {n : ℕ} {vector : Word}
    {masks : Bool}
    (hrow : row ∈ OpcodeMap.systemRows) (hs : m.memory.contents.size = Ram.maxSize)
    (mode : row.mode = .inherent) (operation : row.operation = .swi vector masks)
    (hf : m.gives fetchOpcode = (row.code, bytes) ∧
      m.after fetchOpcode = m.after (goto (m.cpu.registers.pc + UInt16.ofNat n))) :
    (∃ used, m.gives executeNext = .ok used) ∧
      Stacked (Registers.frame
        { m.cpu.registers with
          pc := m.cpu.registers.pc + UInt16.ofNat n
          cc := { m.cpu.registers.cc with e := true } } .system entireState)
      m (m.after executeNext) := by
  have h := executed row { address := 0, bytes := [], cycles := 0 } hrow hf (by rw [mode]; rfl)
  rw [mode, operation] at h
  refine ⟨h.gives, h.stacked ?_⟩
  exact (stacked_swi (m := m.decoded n) hs vector 0 masks).congr rfl rfl rfl rfl

/-- So does CWAI, and then it waits. -/
theorem executeNext_cwai {mask : Byte} (hs : m.memory.contents.size = Ram.maxSize)
    (h : m.memory.Holds m.cpu.registers.pc [0x3C, mask]) :
    (∃ used, m.gives executeNext = .ok used) ∧ (m.after executeNext).cpu.wait = .cwai ∧
      Stacked ((Entry.cwai mask).frame m.cpu.registers) m (m.after executeNext) := by
  obtain ⟨first, second, -⟩ := h
  -- The operand is the mask itself, and PC is past it when the frame is pushed.
  have h := executed (m := m) (n := 1) (Instruction.row 0x3C "CWAI" .imm8 20 .cwai)
    { address := m.cpu.registers.pc + UInt16.ofNat 1,
      bytes := [m.memory.read (m.cpu.registers.pc + UInt16.ofNat 1)], cycles := 0 }
    (by simp [OpcodeMap.systemRows])
    (fetchOpcode_single ⟨first, trivial⟩ (by decide) (by decide)) rfl
  -- locating the mask moves PC past it
  have located : (m.decoded 1).after (resolve .imm8 0x3C m.cpu.registers.pc) =
      (m.decoded 1).after (goto (m.cpu.registers.pc + UInt16.ofNat 2)) := by
    show (m.decoded 1).after
      (goto (m.cpu.registers.pc + UInt16.ofNat 1 + UInt16.ofNat 1)) = _
    rw [UInt16.add_assoc]
    rfl
  change Executed m (((m.decoded 1).after (resolve .imm8 0x3C m.cpu.registers.pc)).after
    (perform .cwai (m.cpu.registers.pc + UInt16.ofNat 1))) at h
  rw [located] at h
  refine ⟨h.gives, ?_, h.stacked ?_⟩
  · rw [h.wait, after_cwai, halted]
  have hm := stacked_cwai (m := (m.decoded 1).after (goto (m.cpu.registers.pc + UInt16.ofNat 2)))
    hs (m.cpu.registers.pc + UInt16.ofNat 1)
  -- memory is as it was
  have read : ((m.decoded 1).after (goto (m.cpu.registers.pc + UInt16.ofNat 2))).memory.read
    (m.cpu.registers.pc + UInt16.ofNat 1) = mask := second
  rw [read] at hm
  exact hm.congr rfl rfl rfl rfl

/-- The action succeeds and is the entry. -/
structure Enters (entry : Entry) (m : Machine Ram) (x : Exec Ram (Except Fault ℕ)) : Prop where
  gives : ∃ used, m.gives x = .ok used
  stacked : Stacked (entry.frame m.cpu.registers) m (m.after x)
  wait : ∀ mask, entry = .cwai mask → (m.after x).cpu.wait = .cwai

/-- An entry that is an instruction is the work of a tick. -/
theorem Enters.work (hm : m.Executes) (h : Enters entry m.awake executeNext) :
    Enters entry m work := by
  obtain ⟨after, gives⟩ := work_of_executes hm
  refine ⟨?_, ?_, ?_⟩
  · rw [gives]
    exact h.gives
  · rw [after]
    exact h.stacked.congr rfl rfl rfl rfl
  · rw [after]
    exact h.wait

/-- Each entry is the work of a tick. -/
theorem enters_work (hs : m.memory.contents.size = Ram.maxSize) (h : entry.Begins m) :
    Enters entry m work := by
  -- an interrupt is accepted; the other entries are instructions, found by their opcodes
  cases entry with
  | interrupt source =>
    obtain ⟨after, gives⟩ := work_of_accepted h.1 h.2
    refine ⟨⟨_, gives⟩, ?_, nofun⟩
    rw [after]
    exact (stacked_enterInterrupt (m := m.awake) hs source).congr rfl rfl rfl rfl
  | swi =>
    obtain ⟨gives, stacked⟩ := executeNext_swi (m := m.awake) (n := 1)
      (Instruction.inherent 0x3F "SWI" 19 (.swi VectorAddress.swi true))
      (by simp [OpcodeMap.systemRows]) hs rfl rfl
      (fetchOpcode_single (m := m.awake) h.2 (by decide) (by decide))
    exact Enters.work h.1 ⟨gives, stacked, nofun⟩
  -- SWI2 and SWI3 have a prefix, and do not mask
  | swi2 =>
    obtain ⟨gives, stacked⟩ := executeNext_swi (m := m.awake) (n := 2)
      (Instruction.inherent 0x103F "SWI2" 20 (.swi VectorAddress.swi2 false))
      (by simp [OpcodeMap.systemRows]) hs rfl rfl
      (fetchOpcode_prefixed (m := m.awake) h.2 (by decide))
    exact Enters.work h.1 ⟨gives, stacked, nofun⟩
  | swi3 =>
    obtain ⟨gives, stacked⟩ := executeNext_swi (m := m.awake) (n := 2)
      (Instruction.inherent 0x113F "SWI3" 20 (.swi VectorAddress.swi3 false))
      (by simp [OpcodeMap.systemRows]) hs rfl rfl
      (fetchOpcode_prefixed (m := m.awake) h.2 (by decide))
    exact Enters.work h.1 ⟨gives, stacked, nofun⟩
  | cwai mask =>
    obtain ⟨gives, wait, stacked⟩ := executeNext_cwai (m := m.awake) hs h.2
    exact Enters.work h.1 ⟨gives, stacked, fun _ _ => wait⟩

end Entries

/-! ### The return -/

section Return

variable {m : Machine Ram} {r : Registers} {list : Byte}

/-- Restoring assigns one register after the other. -/
theorem registers_restore (r : Registers) (names : List RegisterName) (m : Machine Ram) :
    (m.restore r names).cpu.registers =
      names.foldl (fun q name => q.assign name (r.read name)) m.cpu.registers := by
  induction names generalizing m with
  | nil => rfl
  | cons name names ih => exact ih _

/-- Pulling a list that does not name S restores its registers. -/
theorem pullFrame_of_holds (hn : RegisterName.s ∉ Stack.system.selected list)
    (h : m.memory.Holds (m.top .system) (r.frame .system list)) :
    (m.after (pullFrame .system list)).memory = m.memory ∧
      (m.after (pullFrame .system list)).cpu.registers =
        { (Stack.system.selected list).foldl (fun q name => q.assign name (r.read name))
            m.cpu.registers with
          s := m.top .system + UInt16.ofNat (r.frame .system list).length } := by
  have pulled : m.after (pullFrame .system list) =
      (m.restore r (Stack.system.selected list)).withTop .system
        (m.top .system + UInt16.ofNat (r.frame .system list).length) := after_pullRegisters hn h
  rw [pulled, memory_withTop, memory_restore]
  refine ⟨rfl, ?_⟩
  rw [← registers_restore]
  rfl

/-- The first pull of a return is that of the codes. -/
theorem pullFrame_codes (h : m.memory.Holds (m.top .system) (r.frame .system 0x01)) :
    (m.after (pullFrame .system 0x01)).memory = m.memory ∧
      (m.after (pullFrame .system 0x01)).cpu.registers =
        { m.cpu.registers with cc := r.cc, s := m.top .system + 1 } := by
  obtain ⟨memory, registers⟩ := pullFrame_of_holds (by decide) h
  refine ⟨memory, registers.trans ?_⟩
  show { m.cpu.registers with
    cc := Flags.ofByte (lowByte r.cc.toByte.toUInt16), s := m.top .system + 1 } = _
  rw [lowByte_toUInt16, Flags.ofByte_toByte]

/-- Between these two, with E set, come the other registers. -/
theorem pullFrame_others (h : m.memory.Holds (m.top .system) (r.frame .system 0x7E)) :
    (m.after (pullFrame .system 0x7E)).memory = m.memory ∧
      (m.after (pullFrame .system 0x7E)).cpu.registers =
        { r with
          pc := m.cpu.registers.pc, cc := m.cpu.registers.cc, s := m.top .system + 9 } := by
  obtain ⟨memory, registers⟩ := pullFrame_of_holds (by decide) h
  refine ⟨memory, registers.trans ?_⟩
  show { r with
    a := lowByte r.a.toUInt16, b := lowByte r.b.toUInt16, dp := lowByte r.dp.toUInt16,
    pc := m.cpu.registers.pc, cc := m.cpu.registers.cc, s := m.top .system + 9 } = _
  rw [lowByte_toUInt16, lowByte_toUInt16, lowByte_toUInt16]

/-- The last pull is that of PC. -/
theorem pullFrame_pc (h : m.memory.Holds (m.top .system) (r.frame .system 0x80)) :
    (m.after (pullFrame .system 0x80)).cpu.registers =
      { m.cpu.registers with pc := r.pc, s := m.top .system + 2 } :=
  (pullFrame_of_holds (by decide) h).2

/-- With E set a return brings everything back. -/
theorem registers_returnFromInterrupt_entire (he : r.cc.e = true)
    (h : m.memory.Holds (m.top .system) (r.frame .system entireState)) :
    (m.after returnFromInterrupt).cpu.registers = { r with s := m.top .system + 12 } := by
  have split : r.frame .system entireState =
    r.frame .system 0x01 ++ (r.frame .system 0x7E ++ r.frame .system 0x80) := rfl
  rw [split, Ram.holds_append, Ram.holds_append] at h
  -- CC is pulled first, and its E decides about the rest.
  obtain ⟨codes, others, pc⟩ := h
  obtain ⟨memory₁, registers₁⟩ := pullFrame_codes codes
  simp only [returnFromInterrupt, after_bind, after_ite, after_registers, gives_registers,
    after_pure]
  generalize m.after (pullFrame .system 0x01) = m₁ at *
  have top₁ : m₁.top .system = m.top .system + 1 := by rw [top, registers₁]; rfl
  -- the pull of CC has brought back the E of the frame
  have e : m₁.cpu.registers.cc.e = true := by rw [registers₁]; exact he
  rw [if_pos e]
  obtain ⟨memory₂, registers₂⟩ := pullFrame_others (m := m₁) (r := r)
    (by rw [memory₁, top₁]; exact others)
  generalize m₁.after (pullFrame .system 0x7E) = m₂ at *
  have top₂ : m₂.top .system = m.top .system + 10 := by
    rw [top, registers₂]
    show m₁.top .system + 9 = _
    rw [top₁, UInt16.add_assoc]
    rfl
  rw [UInt16.add_assoc] at pc
  rw [pullFrame_pc (r := r) (by rw [memory₂, memory₁, top₂]; exact pc), registers₂, registers₁,
    top₂, UInt16.add_assoc]
  rfl

/-- With E clear it brings back the codes and PC. -/
theorem registers_returnFromInterrupt_short (he : r.cc.e = false)
    (h : m.memory.Holds (m.top .system) (r.frame .system returnState)) :
    (m.after returnFromInterrupt).cpu.registers =
      { m.cpu.registers with cc := r.cc, pc := r.pc, s := m.top .system + 3 } := by
  have split : r.frame .system returnState = r.frame .system 0x01 ++ r.frame .system 0x80 := rfl
  rw [split, Ram.holds_append] at h
  obtain ⟨codes, pc⟩ := h
  obtain ⟨memory₁, registers₁⟩ := pullFrame_codes codes
  simp only [returnFromInterrupt, after_bind, after_ite, after_registers, gives_registers,
    after_pure]
  generalize m.after (pullFrame .system 0x01) = m₁ at *
  have top₁ : m₁.top .system = m.top .system + 1 := by rw [top, registers₁]; rfl
  have e : ¬m₁.cpu.registers.cc.e = true := by rw [registers₁, he]; exact Bool.false_ne_true
  -- E was pulled clear, so PC comes next
  rw [if_neg e]
  rw [pullFrame_pc (r := r) (by rw [memory₁, top₁]; exact pc), registers₁, top₁, UInt16.add_assoc]
  rfl

end Return

/-! ### There and back -/

section Undoing

variable {m : Machine Ram} {entry : Entry} {source : InterruptSource}

/-- A frame has three bytes or twelve. -/
theorem length_frame (entry : Entry) (r : Registers) :
    (entry.frame r).length = if entry.isShort then 3 else 12 := by
  unfold Entry.frame
  split_ifs <;> rfl

/-- E is saved clear in the short frame and set in the other. -/
theorem saved_cc_e (entry : Entry) (r : Registers) :
    (entry.saved r).cc.e = !entry.isShort := by
  cases entry <;> rfl

/-- The exit knows the entry by the E that was saved. -/
theorem registers_returnFromInterrupt {before : Registers}
    (h : m.memory.Holds (m.top .system) (entry.frame before))
    (hs : m.top .system = before.s - UInt16.ofNat (entry.frame before).length) :
    (m.after returnFromInterrupt).cpu.registers = entry.restored before m.cpu.registers := by
  have e := saved_cc_e entry before
  rw [length_frame] at hs
  unfold Entry.frame at h
  unfold Entry.restored
  -- the return can tell by E which frame it was
  by_cases short : entry.isShort = true
  · rw [if_pos short] at h hs ⊢
    rw [registers_returnFromInterrupt_short (e.trans (by rw [short]; rfl)) h, hs]
    exact congrArg (fun s => { m.cpu.registers with
      cc := (entry.saved before).cc, pc := (entry.saved before).pc, s }) (UInt16.sub_add_cancel _ _)
  · rw [if_neg short] at h hs ⊢
    rw [registers_returnFromInterrupt_entire (e.trans (by simp [short])) h, hs]
    exact congrArg (fun s => { entry.saved before with s }) (UInt16.sub_add_cancel _ _)

/-- RTI is executed as a return. -/
theorem executeNext_rti (h : m.memory.read m.cpu.registers.pc = 0x3B) :
    Executed m ((m.decoded 1).after returnFromInterrupt) :=
  executed (m := m) (n := 1) (Instruction.inherent 0x3B "RTI" 6 .rti)
    { address := 0, bytes := [], cycles := 0 } (by simp [OpcodeMap.systemRows])
    (fetchOpcode_single ⟨h, trivial⟩ (by decide) (by decide)) rfl

/-- A wake-up from CWAI pushes nothing: what CWAI has pushed is the frame of the interrupt. -/
theorem step_of_wake (hw : m.started.cpu.wait = .cwai)
    (h : m.started.cpu.lines.accepted m.started.cpu.registers.cc = some source) :
    ∃ c m', m.step = (.ok c, m') ∧
      m'.cpu.registers.s = m.started.cpu.registers.s ∧ m'.memory = m.memory := by
  obtain ⟨after, gives⟩ := work_of_wake hw h
  refine ⟨_, _, step_of_ok gives, ?_⟩
  rw [after]
  show Machine.top .system (Machine.after _ _) = _ ∧ Machine.memory (Machine.after _ _) = _
  cases source <;> exact ⟨rfl, rfl⟩

/-- After an entry the frame lies at S and nothing else in memory has changed. Whenever S is there
again and the frame has been left alone, RTI brings back the registers that the entry has saved.
For CWAI the frame is that of the interrupt which ends the wait, since a wake-up pushes nothing. -/
theorem rti_undoes_entry (entry : Entry) (m : Machine Ram)
    (hs : m.memory.contents.size = Ram.maxSize) (begins : entry.Begins m.started) :
    ∃ c m', m.step = (.ok c, m') ∧
      m'.cpu.registers.s = m.started.cpu.registers.s -
        UInt16.ofNat (entry.frame m.started.cpu.registers).length ∧
      Ram.LaidDown m'.cpu.registers.s (entry.frame m.started.cpu.registers) m.memory m'.memory ∧
      (∀ mask, entry = .cwai mask → m'.cpu.wait = .cwai ∧
        ∀ (waiting : Machine Ram) source, waiting.started.cpu.wait = .cwai →
          waiting.started.cpu.lines.accepted waiting.started.cpu.registers.cc = some source →
          ∃ c woken, waiting.step = (.ok c, woken) ∧
            woken.cpu.registers.s = waiting.started.cpu.registers.s ∧
            woken.memory = waiting.memory) ∧
      ∀ later : Machine Ram, later.started.cpu.registers.s = m'.cpu.registers.s →
        (∀ k < (entry.frame m.started.cpu.registers).length,
          later.memory.read (m'.cpu.registers.s + UInt16.ofNat k) =
            m'.memory.read (m'.cpu.registers.s + UInt16.ofNat k)) →
        later.started.Executes → later.memory.read later.started.cpu.registers.pc = 0x3B →
        ∃ c' later', later.step = (.ok c', later') ∧
          later'.cpu.registers =
            entry.restored m.started.cpu.registers later.started.cpu.registers := by
  obtain ⟨⟨used, gives⟩, ⟨pointer, laid⟩, wait⟩ := enters_work (m := m.started) hs begins
  refine ⟨_, _, step_of_ok gives, pointer, laid, fun mask hm => ⟨wait mask hm, ?_⟩, ?_⟩
  · exact fun waiting source hw ha => step_of_wake hw ha
  -- Between the entry and the return anything may have happened. It is enough that S is back.
  intro later s same executes opcode
  obtain ⟨after, gives'⟩ := work_of_executes executes
  have rti := executeNext_rti (m := later.started.awake) opcode
  obtain ⟨used', hused⟩ := rti.gives
  refine ⟨_, _, step_of_ok (gives'.trans hused), ?_⟩
  show (later.started.after work).cpu.registers = _
  rw [after, rti.registers]
  -- The opcode has been fetched, and the frame still lies where S points.
  have holds : later.memory.Holds later.started.cpu.registers.s
      (entry.frame m.started.cpu.registers) := by
    rw [s]
    exact laid.holds.of_reads same
  rw [registers_returnFromInterrupt (m := later.started.awake.decoded 1) holds (s.trans pointer)]
  unfold Entry.restored
  split_ifs <;> rfl

/-- A machine that an IRQ is about to interrupt, with a stack that the frame takes below address
zero. -/
def interrupted : Machine Ram :=
  { cpu :=
      { Cpu.initial with
        registers := { Registers.zero with a := 1, x := 0x0203, s := 4, pc := 0x2000 }
        lines := { InterruptLines.released with irq := true } }
    memory := Ram.zeroed Ram.maxSize }

/-- The same machine at the end of its handler. -/
def returning (memory : Ram) : Machine Ram :=
  { cpu :=
      { Cpu.initial with registers := { Registers.zero with s := 0xFFF8, pc := 0x1000 } }
    memory := memory.write 0x1000 0x3B }

/-- The handler returns with its stack across address zero, and has used $1000 for its RTI. -/
theorem rti_undoes_entry_interrupted :
    interrupted.memory.contents.size = Ram.maxSize ∧
      (Entry.interrupt .irq).Begins interrupted.started ∧
      ∃ c m' c' m'', interrupted.step = (.ok c, m') ∧ (returning m'.memory).step = (.ok c', m'') ∧
        m''.cpu.registers =
          { interrupted.cpu.registers with cc := { Flags.none with e := true } } := by
  have size : interrupted.memory.contents.size = Ram.maxSize := Array.size_replicate
  have begins : (Entry.interrupt .irq).Begins interrupted.started := ⟨by decide, rfl⟩
  obtain ⟨c, m', step, s, laid, -, returns⟩ :=
    rti_undoes_entry (.interrupt .irq) interrupted size begins
  have s : m'.cpu.registers.s = 0xFFF8 := s.trans (by decide)
  -- RTI is put where the frame is not
  have apart : ∀ k < 12, (0x1000 : Word) ≠ 0xFFF8 + UInt16.ofNat k := by decide
  obtain ⟨c', m'', step', registers⟩ := returns (returning m'.memory) s.symm
    (fun k hk => Ram.read_write_of_ne (s ▸ apart k hk) _ _) ⟨rfl, .inl rfl⟩
    (Ram.read_write_self (laid.size.trans size) _ _)
  exact ⟨size, begins, c, m', c', m'', step, step', registers.trans rfl⟩

end Undoing

end Machine

end Machine6809
