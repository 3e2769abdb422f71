import Machine6809.Cpu.Indexed
import Machine6809.Cpu.OpcodeMap

/-!
# Which condition codes an operation may change

Every operation has its condition codes (`Operation.scope`), and what it does to the others is
nothing (`Flags.Within`). For the operations on numbers that is seen from the codes that they give.
Transfers, exchanges and pulls may change all codes or none, which depends on their operand byte
(`Operation.Replaces`).
-/

namespace Machine6809

namespace Flags

/-- Nothing but codes in `scope` differ. -/
def Within (scope cc cc' : Flags) : Prop := cc'.assign scope false = cc.assign scope false

variable {scope cc cc' cc'' : Flags}

theorem Within.refl (scope cc : Flags) : Within scope cc cc := (rfl)

theorem Within.trans (h : Within scope cc cc') (h' : Within scope cc' cc'') :
    Within scope cc cc'' :=
  Eq.trans h' h

/-- All codes are in this scope. -/
theorem within_all (cc cc' : Flags) : Within (PerFlag.all true) cc cc' := (rfl)

/-- A code that the scope does not touch is the same. -/
theorem Within.code {α : Type} (h : Within scope cc cc') (code : Flags → α)
    (outside : ∀ x : Flags, code (x.assign scope false) = code x) : code cc' = code cc := by
  rw [← outside cc', h, outside]

/-- Within no scope nothing changes. -/
theorem Within.eq_of_none (h : Within none cc cc') : cc' = cc := h.code id fun _ => rfl

end Flags

/-! ### Results of the arithmetic -/

namespace Flags

/-- N, Z and V, which a value leaves that is moved or combined bit by bit. -/
def ofLogic : Flags := { none with n := true, z := true, v := true }

/-- N, Z, V and C, which a sum or difference leaves. -/
def ofSum : Flags := { ofLogic with c := true }

variable (cc : Flags)

/-- Logic with bytes changes N, Z and V. -/
theorem within_logic8 (r : Byte) : Within ofLogic cc (cc.withLogic8 r) := (rfl)

theorem within_logic16 (r : Word) : Within ofLogic cc (cc.withLogic16 r) := (rfl)

end Flags

/-- The codes that an operation of an accumulator with a byte may change. -/
def BinaryOp.scope : BinaryOp → Flags
  | .add | .adc => { Flags.ofSum with h := true }
  | .sub | .sbc | .cmp => Flags.ofSum
  | .and | .bit | .or | .eor | .load => Flags.ofLogic

/-- An operation on two bytes changes the codes of its scope. -/
theorem BinaryOp.within_apply (op : BinaryOp) (acc operand : Byte) (cc : Flags) :
    op.scope.Within cc (op.apply acc operand cc).2 := by
  cases op <;> rfl

/-- The codes that an operation on one byte may change. -/
def UnaryOp.scope : UnaryOp → Flags
  | .neg | .com | .lsl | .rol | .clr => Flags.ofSum
  | .lsr | .ror | .asr => { Flags.none with n := true, z := true, c := true }
  | .dec | .inc | .tst => Flags.ofLogic

theorem UnaryOp.within_apply (op : UnaryOp) (v : Byte) (cc : Flags) :
    op.scope.Within cc (op.apply v cc).2 := by
  cases op <;> rfl

/-! ### Scopes of operations -/

namespace Operation

/-- The codes that an operation may change, unless it replaces them all. -/
def scope : Operation → Flags
  | .binary op _ => op.scope
  | .modify op | .modifyAcc op _ => op.scope
  | .store _ | .storeWord _ => Flags.ofLogic
  | .loadWord name => if name = .cc then PerFlag.all true else Flags.ofLogic
  | .compareWord _ | .addD | .subD => Flags.ofSum
  | .lea name =>
    if name = .cc then PerFlag.all true
    else { Flags.none with z := decide (name = .x ∨ name = .y) }
  | .branch _ | .longBranch _ | .jump | .call | .return | .push _ | .sync | .nop | .abx =>
    Flags.none
  | .pull _ | .transfer | .exchange => Flags.none
  | .orCC | .andCC | .cwai | .rti => PerFlag.all true
  | .swi _ masks => { Flags.none with e := true, f := masks, i := masks }
  | .mul => { Flags.none with z := true, c := true }
  | .sex => { Flags.none with n := true, z := true }
  | .daa => Flags.ofSum

/-- The operation writes the condition codes as a whole, given its operand byte. -/
def Replaces (operand : Byte) : Operation → Prop
  | .transfer => operand.toNat % 16 = 0xA
  | .exchange => operand.toNat % 16 = 0xA ∨ operand.toNat / 16 = 0xA
  | .pull _ => bitOf operand 0 = true
  | _ => False

/-- The operation moves a value into a register that its operand byte chooses. -/
def moves : Operation → Bool
  | .transfer | .exchange | .pull _ => true
  | _ => false

/-- What replaces CC moves registers. -/
theorem moves_of_replaces {operation : Operation} {operand : Byte}
    (h : operation.Replaces operand) : operation.moves = true := by
  cases operation with
  | transfer | exchange | pull => rfl
  | _ => exact absurd h id

end Operation

/-- No register has two transfer codes. -/
theorem RegisterName.ofTransferCode?_inj {code code' : Nat} {name : RegisterName}
    (h : ofTransferCode? code = some name) (h' : ofTransferCode? code' = some name) :
    code = code' := by
  unfold ofTransferCode? at h
  split at h <;> cases h
  all_goals
    unfold ofTransferCode? at h'
    split at h' <;> simp_all

/-- CC is pulled if bit 0 of the list is set. -/
theorem Stack.cc_mem_selected (stack : Stack) (list : Byte) :
    .cc ∈ stack.selected list ↔ bitOf list 0 = true := by
  cases stack <;> simp [selected, registers, Stack.other]

/-- The register of an indexed operand is one of four. -/
theorem IndexedOperand.base_mem {postbyte : Byte} {operand : IndexedOperand}
    (h : decode? postbyte = some operand) : operand.base ∈ [.x, .y, .u, .s] := by
  -- two bits of the postbyte name one of the four registers
  have base : baseOf postbyte ∈ [RegisterName.x, .y, .u, .s] := by
    unfold baseOf
    split <;> simp
  unfold decode? at h
  split at h
  · obtain ⟨form, -, rfl⟩ := Option.map_eq_some_iff.mp h
    exact base
  · obtain rfl := Option.some.inj h
    exact base

/-- So it is not CC. -/
theorem IndexedOperand.base_ne_cc {postbyte : Byte} {operand : IndexedOperand}
    (h : decode? postbyte = some operand) : operand.base ≠ .cc := by
  intro cc
  simpa [cc] using base_mem h

/-! ### Mnemonics -/

namespace Instruction

/-- The instructions that are there to change the codes, and those that mask interrupts. -/
def codeWriters : List String := ["ORCC", "ANDCC", "CWAI", "RTI", "SWI", "SWI2", "SWI3"]

/-- The sums of bytes, which are the instructions with a half carry. -/
def byteSums : List String := ["ADDA", "ADDB", "ADCA", "ADCB"]

/-- The other sums, the differences and the comparisons. -/
def differences : List String :=
  ["ADDD", "SUBA", "SUBB", "SUBD", "SBCA", "SBCB", "CMPA", "CMPB", "CMPD", "CMPX", "CMPY", "CMPU",
    "CMPS"]

/-- The operations on one byte that leave a carry, in memory, on A and on B. -/
def shifts : List String :=
  ["NEG", "COM", "LSR", "ROR", "ASR", "LSL", "ROL", "CLR"].flatMap fun name =>
    [name, name ++ "A", name ++ "B"]

/-- The short and the long branches. -/
def branches : List String :=
  ["RA", "RN", "HI", "LS", "HS", "LO", "NE", "EQ", "VC", "VS", "PL", "MI", "GE", "LT", "GT",
    "LE"].flatMap fun letters => ["B" ++ letters, "LB" ++ letters]

/-- The instructions that change no code. -/
def codeless : List String :=
  branches ++ ["JMP", "JSR", "BSR", "LBSR", "RTS", "PSHS", "PSHU", "ABX", "NOP", "SYNC", "LEAS",
    "LEAU"]

/-- The instruction writes the condition codes as such: it is there for that, or its operand byte
names CC as a register that is written. -/
def WritesCodes (row : Instruction) (operand : Byte) : Prop :=
  row.mnemonic ∈ codeWriters ∨ row.mnemonic = "TFR" ∧ operand.toNat % 16 = 0xA ∨
    row.mnemonic = "EXG" ∧ (operand.toNat % 16 = 0xA ∨ operand.toNat / 16 = 0xA) ∨
    row.mnemonic ∈ ["PULS", "PULU"] ∧ bitOf operand 0 = true

/-- The condition codes that an instruction leaves as they were. The operand byte matters only for
transfers, exchanges and pulls. -/
structure CodesFramed (row : Instruction) (operand : Byte) (cc cc' : Flags) : Prop where
  masks : ¬row.WritesCodes operand → cc'.e = cc.e ∧ cc'.f = cc.f ∧ cc'.i = cc.i
  /-- SWI2 and SWI3 mask nothing. -/
  unmasked : row.mnemonic ∈ ["SWI2", "SWI3"] → cc' = { cc with e := cc'.e }
  half : ¬row.WritesCodes operand → row.mnemonic ∉ byteSums → cc'.h = cc.h
  carry : ¬row.WritesCodes operand →
    row.mnemonic ∉ byteSums ++ differences ++ shifts ++ ["MUL", "DAA"] → cc'.c = cc.c
  codeless : row.mnemonic ∈ codeless → cc' = cc
  index : row.mnemonic ∈ ["LEAX", "LEAY"] → cc' = { cc with z := cc'.z }

/-- The instructions whose operand byte chooses the registers that they write. -/
theorem rows_moving : ∀ row ∈ OpcodeMap.rows,
    (row.operation.moves = true → row.mode = .imm8) ∧
      (row.operation = .transfer → row.mnemonic = "TFR") ∧
      (row.operation = .exchange → row.mnemonic = "EXG") ∧
      (row.operation ∈ [.pull .system, .pull .user] → row.mnemonic ∈ ["PULS", "PULU"]) := by
  decide +kernel

/-- The codes in the scope of an operation, seen from the mnemonic. -/
theorem rows_scope : ∀ row ∈ OpcodeMap.rows, row.mnemonic ∈ codeWriters ∨
    (row.operation.scope.e = false ∧ row.operation.scope.f = false ∧
        row.operation.scope.i = false) ∧
      (row.operation.scope.h = false ∨ row.mnemonic ∈ byteSums) ∧
      (row.operation.scope.c = false ∨
        row.mnemonic ∈ byteSums ++ differences ++ shifts ++ ["MUL", "DAA"]) := by
  decide +kernel

/-- The rows with a scope of their own: those without codes, and those that set E or Z alone. -/
theorem rows_fixed : ∀ row ∈ OpcodeMap.rows,
    (row.mnemonic ∈ codeless → row.operation.moves = false ∧ row.operation.scope = Flags.none) ∧
      (row.mnemonic ∈ ["SWI2", "SWI3"] →
        row.operation.moves = false ∧ row.operation.scope = { Flags.none with e := true }) ∧
      (row.mnemonic ∈ ["LEAX", "LEAY"] →
        row.operation.moves = false ∧ row.operation.scope = { Flags.none with z := true }) := by
  decide +kernel

/-- A row that replaces CC is one that writes the codes. -/
theorem writesCodes_of_replaces {row : Instruction} {operand : Byte} (hrow : row ∈ OpcodeMap.rows)
    (h : row.operation.Replaces operand) : row.WritesCodes operand := by
  obtain ⟨-, transfer, exchange, pull⟩ := rows_moving row hrow
  generalize row.operation = operation at *
  cases operation with
  | transfer => exact .inr (.inl ⟨transfer rfl, h⟩)
  | exchange => exact .inr (.inr (.inl ⟨exchange rfl, h⟩))
  | pull stack => exact .inr (.inr (.inr ⟨pull (by cases stack <;> decide), h⟩))
  | _ => exact absurd h id

/-- An instruction leaves the codes that the scope of its operation leaves. -/
theorem codesFramed_of_within {row : Instruction} {operand : Byte} {cc cc' : Flags}
    (hrow : row ∈ OpcodeMap.rows)
    (h : ¬row.operation.Replaces operand → row.operation.scope.Within cc cc') :
    row.CodesFramed operand cc cc' := by
  obtain ⟨codeless, unmasked, index⟩ := rows_fixed row hrow
  -- a row that does not write the codes as a whole stays within its scope
  have within (hw : ¬row.WritesCodes operand) : row.operation.scope.Within cc cc' :=
    h fun replaces => hw (writesCodes_of_replaces hrow replaces)
  -- and its scope is one that all rows have in common
  have scope (hw : ¬row.WritesCodes operand) :=
    (rows_scope row hrow).resolve_left fun writes => hw (.inl writes)
  -- rows that move no register have nothing to write them with
  have fixed {scope : Flags} (hs : row.operation.moves = false ∧ row.operation.scope = scope) :
      scope.Within cc cc' :=
    hs.2 ▸ h fun replaces => absurd (Operation.moves_of_replaces replaces) (by simp [hs.1])
  constructor
  case masks =>
    intro hw
    obtain ⟨⟨e, f, i⟩, -⟩ := scope hw
    refine ⟨(within hw).code (·.e) ?_, (within hw).code (·.f) ?_, (within hw).code (·.i) ?_⟩
    all_goals simp [Flags.assign, PerFlag.zipWith, e, f, i]
  case half =>
    intro hw hsum
    obtain ⟨-, half, -⟩ := scope hw
    have h := half.resolve_right hsum
    exact (within hw).code (·.h) (by simp [Flags.assign, PerFlag.zipWith, h])
  case carry =>
    intro hw hcarry
    obtain ⟨-, -, carry⟩ := scope hw
    have c := carry.resolve_right hcarry
    exact (within hw).code (·.c) (by simp [Flags.assign, PerFlag.zipWith, c])
  -- the mnemonics with an empty scope, and those whose scope is E or Z alone
  case codeless => exact fun hm => (fixed (codeless hm)).eq_of_none
  case unmasked =>
    intro hm
    have others : { cc' with e := false } = { cc with e := false } :=
      (fixed (unmasked hm)).code (fun x => { x with e := false }) fun _ => rfl
    exact congrArg (fun x : Flags => { x with e := cc'.e }) others
  case index =>
    intro hm
    have others : { cc' with z := false } = { cc with z := false } :=
      (fixed (index hm)).code (fun x => { x with z := false }) fun _ => rfl
    exact congrArg (fun x : Flags => { x with z := cc'.z }) others

end Instruction

end Machine6809
