import Machine6809.Cpu.OpcodeMap
import Machine6809.Memory.Observed
import Mathlib.Data.Nat.Notation

/-!
# Which bytes an instruction stores

An instruction stores in one of three ways. Some write the result back to where the operand was
loaded from, some store a register at the address of their operand, and some push a frame, which
means one byte below the other from a stack pointer downward (`Pushed`). All others store nothing.
`Instruction.Stored` lists by mnemonic which instruction belongs where and what it stores.

The rows of the opcode map are made in families, and some members differ from the others of their
family: TST does not write back, and JMP pushes nothing. So it has to be seen row by row that the
mnemonic says what the operation does (`Instruction.rows_storing`).
-/

namespace Machine6809

/-! ### Pushing -/

/-- Bytes stored one below the other, the first just below `top`. -/
def descending (top : Word) (bytes : List Byte) : List ByteStore :=
  bytes.mapIdx fun k value => { address := top - UInt16.ofNat (k + 1), value }

/-- Going down one place first. -/
theorem sub_succ_ofNat (address : Word) (k : ℕ) :
    address - UInt16.ofNat (k + 1) = address - 1 - UInt16.ofNat k := by
  rw [UInt16.ofNat_add]
  grind

/-- The first byte is stored below the top, and the others below that. -/
theorem descending_cons (top : Word) (byte : Byte) (bytes : List Byte) :
    descending top (byte :: bytes) = ⟨top - 1, byte⟩ :: descending (top - 1) bytes := by
  -- counted from the second byte, each of the others is one step nearer
  unfold descending
  rw [List.mapIdx_cons]
  simp only [sub_succ_ofNat top (_ + 1)]
  rfl

/-- The last of the bytes is as far down as there are bytes. -/
theorem getLastD_descending (top : Word) (bytes : List Byte) :
    ((descending top bytes).map (·.address)).getLastD top = top - UInt16.ofNat bytes.length := by
  induction bytes generalizing top with
  | nil => simp [descending]
  | cons byte bytes ih =>
    rw [descending_cons, List.map_cons, List.getLastD_cons, ih, List.length_cons, sub_succ_ofNat]

/-- The stores push `n` bytes: they are made one below the other just below `top`, where the stack
pointer was, and the pointer ends at the last address stored. -/
structure Pushed (n : ℕ) (bytes : List Byte) (top last : Word) (stores : List ByteStore) :
    Prop where
  count : bytes.length = n
  made : stores = descending top bytes
  pointer : last = (stores.map (·.address)).getLastD top

/-- The bytes of the registers that a list names: one for every bit that is set, and one more for
each of the bits 4 to 7. -/
def listedBytes (list : Byte) : ℕ :=
  (List.range 8).countP (bitOf list) + (List.range' 4 4).countP (bitOf list)

/-- Word registers have one byte more than the others. -/
theorem length_flatMap_bytes (r : Registers) (names : List RegisterName) :
    (names.flatMap r.bytes).length = names.length + names.countP (!·.isByte) := by
  induction names with
  | nil => rfl
  | cons name names ih =>
    have bytes : (r.bytes name).length = if name.isByte then 1 else 2 := by
      unfold Registers.bytes
      split <;> rfl
    -- a register counts once as a member of the list and once more if it is a word
    rw [List.flatMap_cons, List.length_append, ih, bytes, List.countP_cons, List.length_cons]
    cases name.isByte <;> simp <;> omega

/-- On both stacks the registers of one byte come before those of two. -/
theorem length_frame_listed (r : Registers) (stack : Stack) (list : Byte) :
    (r.frame stack list).length = listedBytes list := by
  rw [Registers.frame, length_flatMap_bytes, Stack.selected, List.length_map,
    ← List.countP_eq_length_filter, List.countP_map, List.countP_filter]
  cases stack <;> rfl

/-- All registers, the first byte to be pushed first, with E set in the condition codes. -/
def Registers.entireFrame (r : Registers) (cc : Flags) : List Byte :=
  (Registers.frame { r with cc := { cc with e := true } } .system entireState).reverse

/-! ### Mnemonics -/

/-- The operation stores something. -/
def Operation.stores : Operation → Bool
  | .modify op => decide (op ≠ .tst)
  | .store _ | .storeWord _ | .call | .push _ | .cwai | .swi _ _ => true
  | _ => false

namespace Instruction

/-- The instructions that write a result back to memory. -/
def modifiers : List (String × UnaryOp) :=
  [("NEG", .neg), ("COM", .com), ("LSR", .lsr), ("ROR", .ror), ("ASR", .asr), ("LSL", .lsl),
    ("ROL", .rol), ("DEC", .dec), ("INC", .inc), ("CLR", .clr)]

/-- The stores of a byte. -/
def byteStores : List (String × Accumulator) := [("STA", .a), ("STB", .b)]

/-- The stores of a word. -/
def wordStores : List (String × RegisterName) :=
  [("STD", .d), ("STX", .x), ("STY", .y), ("STU", .u), ("STS", .s)]

/-- The instructions that push a list of registers. -/
def pushes : List (String × Stack) := [("PSHS", .system), ("PSHU", .user)]

/-- Those that push a return address. -/
def calls : List String := ["BSR", "LBSR", "JSR"]

/-- Those that push the whole state for a handler. -/
def softwareInterrupts : List String := ["SWI", "SWI2", "SWI3"]

/-- All instructions that store. -/
def storing : List String :=
  modifiers.map (·.1) ++ byteStores.map (·.1) ++ wordStores.map (·.1) ++ pushes.map (·.1) ++ calls
    ++ softwareInterrupts ++ ["CWAI"]

/-- What an instruction stores, in this order, given the address of its operand, the byte there and
the registers with the operand located. Afterwards they are `r'`. -/
structure Stored (row : Instruction) (address : Word) (operand : Byte) (r r' : Registers)
    (stores : List ByteStore) : Prop where
  result : ∀ op, (row.mnemonic, op) ∈ modifiers → stores = [⟨address, (op.apply operand r.cc).1⟩]
  byte : ∀ acc, (row.mnemonic, acc) ∈ byteStores → stores = [⟨address, acc.get r⟩]
  word : ∀ name, (row.mnemonic, name) ∈ wordStores →
    stores = [⟨address, highByte (r.read name)⟩, ⟨address + 1, lowByte (r.read name)⟩]
  push : ∀ stack, (row.mnemonic, stack) ∈ pushes →
    Pushed (listedBytes operand) (r.frame stack operand).reverse (r.read stack.pointer)
      (r'.read stack.pointer) stores
  /-- The return address is pushed. -/
  call : row.mnemonic ∈ calls → Pushed 2 [lowByte r.pc, highByte r.pc] r.s r'.s stores
  swi : row.mnemonic ∈ softwareInterrupts → Pushed 12 (r.entireFrame r.cc) r.s r'.s stores
  /-- The codes are cleared before they are pushed. -/
  cwai : row.mnemonic = "CWAI" →
    Pushed 12 (r.entireFrame (r.cc.and (Flags.ofByte operand))) r.s r'.s stores
  nothing : row.mnemonic ∉ storing → stores = []

/-- The mnemonic says what the operation stores. -/
theorem rows_storing : ∀ row ∈ OpcodeMap.rows,
    (∀ p ∈ modifiers, row.mnemonic = p.1 → row.operation = .modify p.2) ∧
      (∀ p ∈ byteStores, row.mnemonic = p.1 → row.operation = .store p.2) ∧
      (∀ p ∈ wordStores, row.mnemonic = p.1 → row.operation = .storeWord p.2) ∧
      (∀ p ∈ pushes, row.mnemonic = p.1 → row.operation = .push p.2) ∧
      (row.mnemonic ∈ calls → row.operation = .call) ∧
      (row.mnemonic ∈ softwareInterrupts → row.operation ∈ [.swi VectorAddress.swi true,
        .swi VectorAddress.swi2 false, .swi VectorAddress.swi3 false]) ∧
      (row.mnemonic = "CWAI" → row.operation = .cwai) ∧
      (row.mnemonic ∉ storing → row.operation.stores = false) := by
  decide +kernel

end Instruction

end Machine6809
