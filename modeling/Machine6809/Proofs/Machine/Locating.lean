import Machine6809.Proofs.Machine.Executing
import Mathlib.Data.Nat.Notation
import Mathlib.Tactic.SplitIfs

/-!
# What happens while an instruction is fetched

Until its operation is performed an instruction does no more than load bytes and move PC, with one
exception: the automatic forms of an indexed operand move the register that they count from. So a
relation between the machine before and after that these two respect, and that can be chained, holds
across the fetching of the opcode and the location of the operand (`Fetching`). All that has to be
known besides is what becomes of it where an indexed address is formed.

Loads and stores change no register, although an observer may post writes meanwhile. So an operand
that is not indexed is located with no register but PC changed (`registers_located`).
-/

namespace Machine6809

/-- What memory signals does not concern the registers. -/
theorem registers_foldl_absorb (signals : List Signal) (cpu : Cpu) :
    (signals.foldl Cpu.absorb cpu).registers = cpu.registers :=
  Cpu.foldl_absorb (fun _ signal => by cases signal <;> rfl) signals cpu

namespace Machine

variable {μ α β : Type} {R : Machine μ → Machine μ → Prop}

/-- The machines before and after the action are related. -/
def Respects (R : Machine μ → Machine μ → Prop) (x : Exec μ α) : Prop := ∀ m, R m (m.after x)

theorem Respects.ite {x y : Exec μ α} {c : Prop} [Decidable c] (hx : Respects R x)
    (hy : Respects R y) : Respects R (if c then x else y) := by
  split_ifs
  · exact hx
  · exact hy

variable [Memory μ]

/-- A relation that can be chained and that loading and moving PC respect. -/
structure Fetching (R : Machine μ → Machine μ → Prop) : Prop where
  refl : ∀ m, R m m
  trans : ∀ m₁ m₂ m₃, R m₁ m₂ → R m₂ m₃ → R m₁ m₃
  load : ∀ address, Respects R (load address)
  goto : ∀ address, Respects R (goto address)

namespace Fetching

variable (h : Fetching R)
include h

theorem pure (a : α) : Respects R (pure a : Exec μ α) := h.refl

theorem bind {x : Exec μ α} {f : α → Exec μ β} (hx : Respects R x) (hf : ∀ a, Respects R (f a)) :
    Respects R (x >>= f) :=
  fun m => h.trans _ _ _ (hx m) (hf _ _)

theorem registers : Respects R registers := h.refl

theorem loadWord (address : Word) : Respects R (loadWord address) :=
  h.bind (h.load address) fun _ => h.bind (h.load _) fun _ => h.pure _

theorem loadBytes (address : Word) (n : ℕ) : Respects R (loadBytes address n) := by
  induction n generalizing address with
  | zero => exact h.pure []
  | succ n ih => exact h.bind (h.load address) fun _ => h.bind (ih _) fun _ => h.pure _

theorem fetch : Respects R fetch :=
  h.bind h.registers fun _ => h.bind (h.load _) fun _ => h.bind (h.goto _) fun _ => h.pure _

theorem fetchBytes (n : ℕ) : Respects R (fetchBytes n) := by
  induction n with
  | zero => exact h.pure []
  | succ n ih => exact h.bind h.fetch fun _ => h.bind ih fun _ => h.pure _

theorem fetchOpcode : Respects R fetchOpcode := by
  refine h.bind h.fetch fun _ => .ite ?_ (h.pure _)
  exact h.bind h.fetch fun _ => h.pure _

theorem gotoVector (vector : Word) : Respects R (gotoVector vector) :=
  h.bind (h.loadWord vector) fun _ => h.goto _

/-- An indexed operand adds the change that its form makes. -/
theorem resolveIndexed (start : Word)
    (form : ∀ postbyte operand word, IndexedOperand.decode? postbyte = some operand →
      Respects R (formAddress operand.base operand.form word)) :
    Respects R (resolveIndexed start) := by
  refine h.bind h.fetch fun postbyte => ?_
  cases hdecode : IndexedOperand.decode? postbyte with
  | none => exact h.pure _
  | some operand =>
    refine h.bind (h.fetchBytes _) fun _ => h.bind (form _ _ _ hdecode) fun formed => ?_
    exact .ite (h.bind (h.loadWord formed) fun _ => h.pure _) (h.pure _)

/-- In the other modes operands are found by fetches and loads. -/
theorem resolve {mode : AddressingMode} (code start : Word)
    (form : mode = .indexed → ∀ postbyte operand word,
      IndexedOperand.decode? postbyte = some operand →
        Respects R (formAddress operand.base operand.form word)) :
    Respects R (resolve mode code start) := by
  have immediate : ∀ n, Respects R (resolveImmediate n) := fun n =>
    h.bind h.registers fun _ => h.bind (h.goto _) fun _ =>
      h.bind (h.loadBytes _ n) fun _ => h.pure _
  have relative : ∀ n, Respects R (resolveRelative n) := fun n =>
    h.bind (h.fetchBytes n) fun _ => h.bind h.registers fun _ => h.pure _
  cases mode with
  | inherent | invalid => exact h.pure _
  | imm8 | imm16 => exact h.bind (immediate _) fun _ => h.pure _
  | direct =>
    exact h.bind (h.bind h.registers fun _ => h.bind h.fetch fun _ => h.pure _) fun _ => h.pure _
  | extended => exact h.bind (h.bind (h.fetchBytes 2) fun _ => h.pure _) fun _ => h.pure _
  -- the only mode that changes more than PC
  | indexed => exact h.resolveIndexed start (form rfl)
  | rel8 | rel16 => exact h.bind (relative _) fun _ => h.pure _

end Fetching

/-! ### Registers -/

section Registers

variable {m : Machine μ} {row : Instruction} {operand : Located}

theorem registers_load (address : Word) (m : Machine μ) :
    (m.after (load address)).cpu.registers = m.cpu.registers :=
  registers_foldl_absorb _ _

theorem registers_store (address : Word) (value : Byte) (m : Machine μ) :
    (m.after (store address value)).cpu.registers = m.cpu.registers :=
  registers_foldl_absorb _ _

theorem registers_loadWord (address : Word) (m : Machine μ) :
    (m.after (loadWord address)).cpu.registers = m.cpu.registers :=
  (registers_load (address + 1) (m.after (load address))).trans (registers_load address m)

/-- Fetching moves PC on by one. -/
theorem registers_fetch (m : Machine μ) :
    (m.after fetch).cpu.registers = { m.cpu.registers with pc := m.cpu.registers.pc + 1 } := by
  have load := registers_load m.cpu.registers.pc m
  show { (m.after (Machine.load m.cpu.registers.pc)).cpu.registers with
    pc := m.cpu.registers.pc + 1 } = _
  rw [load]

theorem registers_fetchBytes (n : ℕ) (m : Machine μ) :
    (m.after (fetchBytes n)).cpu.registers
      = { m.cpu.registers with pc := m.cpu.registers.pc + UInt16.ofNat n } := by
  induction n generalizing m with
  | zero => simp [fetchBytes]
  | succ n ih =>
    show ((m.after fetch).after (fetchBytes n)).cpu.registers = _
    rw [ih, registers_fetch, ← add_ofNat_succ]

/-- PC moves past the opcode, whose number tells how long it is. -/
theorem registers_fetchOpcode (m : Machine μ) :
    (m.after fetchOpcode).cpu.registers
      = { m.cpu.registers with
          pc := m.cpu.registers.pc + UInt16.ofNat (opcodeLength (m.gives fetchOpcode).1) } := by
  by_cases h : m.gives fetch = 0x10 ∨ m.gives fetch = 0x11
  -- a prefix, and one byte more
  case pos =>
    have after : m.after fetchOpcode = (m.after fetch).after fetch := by simp [fetchOpcode, h]
    have gives : (m.gives fetchOpcode).1
        = wordOf (m.gives fetch) ((m.after fetch).gives fetch) := by
      simp [fetchOpcode, h]
    rw [after, gives, opcodeLength_wordOf h, registers_fetch, registers_fetch]
    exact congrArg (fun pc => { m.cpu.registers with pc }) (add_ofNat_succ _ 1 |>.symm)
  case neg =>
    have after : m.after fetchOpcode = m.after fetch := by simp [fetchOpcode, h]
    have gives : (m.gives fetchOpcode).1 = (m.gives fetch).toUInt16 := by simp [fetchOpcode, h]
    rw [after, gives, opcodeLength_toUInt16, registers_fetch]
    rfl

/-- PC is the only register that fetching changes. -/
theorem fetching_pc :
    Fetching fun m m' : Machine μ => ∃ pc, m'.cpu.registers = { m.cpu.registers with pc } where
  refl m := ⟨m.cpu.registers.pc, rfl⟩
  trans := by
    rintro m₁ m₂ m₃ ⟨between, hbetween⟩ ⟨pc, hpc⟩
    refine ⟨pc, ?_⟩
    rw [hpc, hbetween]
  load address m := ⟨m.cpu.registers.pc, registers_load address m⟩
  goto address _ := ⟨address, rfl⟩

/-- The machine with the operand of its instruction located. -/
def located (m : Machine μ) (row : Instruction) : Machine μ :=
  m.opened.after (resolve row.mode row.code m.cpu.registers.pc)

/-- Except in indexed mode, finding an operand changes PC only. -/
theorem registers_located (h : row.mode ≠ .indexed) :
    ∃ pc, (m.located row).cpu.registers = { m.cpu.registers with pc } := by
  -- between the opcode and the operand the visit is marked, which no register shows
  obtain ⟨opened, hopened⟩ := fetching_pc.fetchOpcode m
  obtain ⟨pc, hpc⟩ := fetching_pc.resolve row.code m.cpu.registers.pc (absurd · h) m.opened
  have fetched : m.opened.cpu.registers = { m.cpu.registers with pc := opened } := hopened
  refine ⟨pc, ?_⟩
  rw [located, hpc, fetched]

/-- The instruction at PC is this row, and this is its operand. -/
structure Locates (m : Machine μ) (row : Instruction) (operand : Located) : Prop where
  lookup : OpcodeMap.lookup? (m.gives fetchOpcode).1 = some row
  resolved : m.opened.gives (resolve row.mode row.code m.cpu.registers.pc) = .ok operand

/-- The cost is that of the row, of the operand and of the operation. -/
theorem Locates.cost (h : m.Locates row operand) : m.gives executeNext
    = .ok (row.cycles + operand.cycles
      + (m.located row).gives (perform row.operation operand.address)) := by
  have resolved := h.resolved
  rw [(executeNext_of_row h.lookup).1]
  simp [executeRow, resolved, located]

/-- An instruction whose operand is located succeeds. -/
theorem Locates.gives (h : m.Locates row operand) : ∃ used, m.gives executeNext = .ok used :=
  ⟨_, h.cost⟩

/-- The operation is performed on the operand, and then there is the message. -/
theorem Locates.after (h : m.Locates row operand) :
    m.after executeNext
      = ((m.located row).after (perform row.operation operand.address)).after
          (noteExecuted m.cpu.registers.pc row.mnemonic
            ((m.gives fetchOpcode).2 ++ operand.bytes)) := by
  rw [(executeNext_of_row h.lookup).2, (executeRow_of_located _ h.resolved).2]
  rfl

/-- Its registers are those that the operation leaves. -/
theorem Locates.registers (h : m.Locates row operand) :
    (m.after executeNext).cpu.registers
      = ((m.located row).after (perform row.operation operand.address)).cpu.registers := by
  rw [h.after, registers_noteExecuted]

/-- It is in the table. -/
theorem Locates.row_mem (h : m.Locates row operand) : row ∈ OpcodeMap.rows :=
  List.mem_of_find?_eq_some h.lookup

/-- An instruction that does not fail has a row and an operand. -/
theorem exists_locates {used : ℕ} (h : m.gives executeNext = .ok used) :
    ∃ row operand, m.Locates row operand := by
  cases lookup : OpcodeMap.lookup? (m.gives fetchOpcode).1 with
  | none => exact nomatch (executeNext_of_unknown lookup).1.symm.trans h
  | some row =>
    rw [(executeNext_of_row lookup).1] at h
    cases resolved : m.opened.gives (resolve row.mode row.code m.cpu.registers.pc) with
    | error fault => exact nomatch (executeRow_of_fault _ resolved).1.symm.trans h
    | ok operand => exact ⟨row, operand, lookup, resolved⟩

end Registers

end Machine

end Machine6809
