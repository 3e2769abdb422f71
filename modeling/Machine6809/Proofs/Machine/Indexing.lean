import Machine6809.Proofs.Machine.Lengths
import Machine6809.Proofs.Machine.Stores
import Mathlib.Data.Nat.Notation

/-!
# Indexed addresses

An indexed operand is located by its postbyte. What that comes to is stated in
`Machine6809.Proofs.Cpu.Indexing` by the bits of the postbyte and in integers; here it is shown that
the machine does that and nothing else. The two sides meet in `Machine.submode_of_decode?`, one form
after the other.
-/

namespace Machine6809

/-- The word at an address. Its low byte is at the next one, which may be the first of memory. -/
def Ram.word (ram : Ram) (address : Word) : Word :=
  wordOf (ram.read address) (ram.read (address + 1))

namespace Machine

variable {postbyte : Byte} {operand : IndexedOperand}

/-- The machine with other registers. -/
def withRegisters {μ : Type} (m : Machine μ) (r : Registers) : Machine μ :=
  { m with cpu := { m.cpu with registers := r } }

/-- Forming an address moves the index register and does nothing else. -/
theorem after_formAddress (operand : IndexedOperand) (word : Word) (m : Machine Ram) :
    m.after (formAddress operand.base operand.form word)
      = m.withRegisters (operand.move m.cpu.registers) := by
  obtain ⟨base, form, indirect⟩ := operand
  cases form <;> rfl

/-- A is a signed offset. -/
theorem accumulatorOffset_a (r : Registers) : accumulatorOffset r .a = signExtend r.a := by
  have low : lowByte (r.read .a) = r.a := lowByte_toUInt16 r.a
  rw [accumulatorOffset, if_neg (by decide), low]

theorem accumulatorOffset_b (r : Registers) : accumulatorOffset r .b = signExtend r.b := by
  have low : lowByte (r.read .b) = r.b := lowByte_toUInt16 r.b
  rw [accumulatorOffset, if_neg (by decide), low]

theorem accumulatorOffset_d (r : Registers) : accumulatorOffset r .d = r.d := if_pos rfl

/-- With what follows the postbyte as `word`, or as `byte` if that is all, the form of the operand
costs, gives and moves what the postbyte says. -/
theorem submode_of_decode? (decoded : IndexedOperand.decode? postbyte = some operand)
    (m : Machine Ram) (byte : Byte) (word : Word) {rest : Word}
    (one : operand.form.length = 1 → rest = signExtend byte)
    (two : operand.form.length = 2 → rest = word) :
    let submode := m.cpu.registers.submode postbyte byte word
    operand.form.cycles = submode.cycles ∧
      m.gives (formAddress operand.base operand.form rest) = UInt16.ofInt submode.address ∧
      operand.move m.cpu.registers
        = m.cpu.registers.move (indexRegister postbyte) submode.distance := by
  obtain ⟨base, -, -⟩ := IndexedOperand.decode?_spec decoded
  have shape := IndexedOperand.form_of_decode? decoded
  obtain ⟨index, form, indirect⟩ := operand
  obtain rfl : index = indexRegister postbyte := base
  dsimp only at shape
  obtain ⟨top, rfl⟩ | ⟨top, listed⟩ := shape
  · -- bit 7 clear: five bits of offset
    simp only [Registers.submode, top]
    exact ⟨rfl, (ofInt_add_short _ _).symm, rfl⟩
  -- with bit 7 set, each form has its nibbles
  cases form with
  | shortOffset offset => simp [IndexedOperand.forms] at listed
  | postIncrement step =>
    have two : postbyte.toNat % 16 = 0x0 ∧ step = 1 ∨ postbyte.toNat % 16 = 0x1 ∧ step = 2 := by
      simpa [IndexedOperand.forms] using listed
    obtain ⟨nibble, rfl⟩ | ⟨nibble, rfl⟩ := two
    all_goals
      simp only [Registers.submode, top, nibble, if_true]
      exact ⟨rfl, (ofInt_toNat _).symm, (Registers.move_up _ _ (by decide)).symm⟩
  | preDecrement step =>
    have two : postbyte.toNat % 16 = 0x2 ∧ step = 1 ∨ postbyte.toNat % 16 = 0x3 ∧ step = 2 := by
      simpa [IndexedOperand.forms] using listed
    obtain ⟨nibble, rfl⟩ | ⟨nibble, rfl⟩ := two
    all_goals
      simp only [Registers.submode, top, nibble, if_true]
      exact ⟨rfl, (ofInt_toNat_sub _ _).symm, (Registers.move_down _ _ (by decide)).symm⟩
  | plain =>
    have nibble : postbyte.toNat % 16 = 0x4 := by simpa [IndexedOperand.forms] using listed
    simp only [Registers.submode, top, nibble, if_true]
    exact ⟨rfl, (ofInt_toNat _).symm, rfl⟩
  | accumulatorOffset name =>
    have value : m.gives (formAddress (indexRegister postbyte) (.accumulatorOffset name) rest)
        = m.cpu.registers.read (indexRegister postbyte)
          + accumulatorOffset m.cpu.registers name := rfl
    rw [value]
    -- the offset is B, A or D
    have three : postbyte.toNat % 16 = 0x5 ∧ name = .b ∨ postbyte.toNat % 16 = 0x6 ∧ name = .a ∨
        postbyte.toNat % 16 = 0xB ∧ name = .d := by
      simpa [IndexedOperand.forms] using listed
    obtain ⟨nibble, rfl⟩ | ⟨nibble, rfl⟩ | ⟨nibble, rfl⟩ := three
    · simp only [Registers.submode, top, nibble, if_true, ofInt_add_signed8, accumulatorOffset_b]
      exact ⟨rfl, trivial, rfl⟩
    · simp only [Registers.submode, top, nibble, if_true, ofInt_add_signed8, accumulatorOffset_a]
      exact ⟨rfl, trivial, rfl⟩
    · simp only [Registers.submode, top, nibble, if_true, ofInt_toNat_add, accumulatorOffset_d]
      exact ⟨rfl, trivial, rfl⟩
  | byteOffset =>
    have nibble : postbyte.toNat % 16 = 0x8 := by simpa [IndexedOperand.forms] using listed
    simp only [Registers.submode, top, nibble, if_true, one rfl]
    exact ⟨rfl, (ofInt_add_signed8 _ _).symm, rfl⟩
  | wordOffset =>
    have nibble : postbyte.toNat % 16 = 0x9 := by simpa [IndexedOperand.forms] using listed
    simp only [Registers.submode, top, nibble, if_true, two rfl]
    exact ⟨rfl, (ofInt_toNat_add _ _).symm, rfl⟩
  | pcByteOffset =>
    have nibble : postbyte.toNat % 16 = 0xC := by simpa [IndexedOperand.forms] using listed
    simp only [Registers.submode, top, nibble, if_true, one rfl]
    exact ⟨rfl, (ofInt_add_signed8 _ _).symm, rfl⟩
  | pcWordOffset =>
    have nibble : postbyte.toNat % 16 = 0xD := by simpa [IndexedOperand.forms] using listed
    simp only [Registers.submode, top, nibble, if_true, two rfl]
    exact ⟨rfl, (ofInt_toNat_add _ _).symm, rfl⟩
  | address =>
    have nibble : postbyte.toNat % 16 = 0xF := by simpa [IndexedOperand.forms] using listed
    simp only [Registers.submode, top, nibble, if_true, two rfl]
    exact ⟨rfl, (ofInt_toNat _).symm, rfl⟩

/-! ### In plain memory -/

section Plain

variable {m : Machine Ram}

/-- Fetching moves PC past the bytes. -/
theorem after_fetchBytes (n : ℕ) (m : Machine Ram) :
    m.after (fetchBytes n) = m.after (goto (m.cpu.registers.pc + UInt16.ofNat n)) := by
  induction n generalizing m with
  | zero => simp [fetchBytes, goto]
  | succ n ih =>
    show (m.after fetch).after (fetchBytes n) = _
    rw [ih, after_fetch, add_ofNat_succ]
    rfl

theorem gives_fetchBytes (n : ℕ) (m : Machine Ram) :
    m.gives (fetchBytes n) = m.memory.bytesAt m.cpu.registers.pc n :=
  ((frame_relates answering_watched).fetchBytes n m m.watched ⟨rfl, rfl⟩).1.trans
    (consumes_fetchBytes n m.watched).2

/-- How an indexed operand is located once its postbyte is read. -/
theorem resolveIndexed_of_decode? (decoded : IndexedOperand.decode? (m.gives fetch) = some operand)
    (start : Word) :
    let fetched := (m.after fetch).after (fetchBytes operand.form.length)
    let rest := (m.after fetch).gives (fetchBytes operand.form.length)
    let formed := fetched.gives (formAddress operand.base operand.form (operandWord rest))
    m.gives (resolveIndexed start) = .ok
        { address := if operand.indirect then fetched.memory.word formed else formed
          bytes := m.gives fetch :: rest
          cycles := operand.cycles } ∧
      m.after (resolveIndexed start)
        = fetched.withRegisters (operand.move fetched.cpu.registers) := by
  -- the address is the one formed, or what memory holds there
  intro fetched rest formed
  have after := after_formAddress operand (operandWord rest) fetched
  cases pointer : operand.indirect with
  | false =>
    simp only [resolveIndexed, gives_bind, after_bind, decoded, pointer]
    exact ⟨rfl, after⟩
  | true =>
    -- the pointer is read after the index register has moved, which does not matter to memory
    have loaded : (fetched.after (formAddress operand.base operand.form (operandWord rest))).gives
        (loadWord formed) = fetched.memory.word formed := by
      rw [after]
      rfl
    simp only [resolveIndexed, gives_bind, after_bind, decoded, pointer]
    refine ⟨?_, after⟩
    rw [← loaded]
    rfl

/-- **Indexed addressing.** With PC at a postbyte that has a meaning, the operand is located as the
submode of the postbyte says. The address is taken modulo 2¹⁶; if the postbyte is indirect, it is
that of a word, high byte first, which is the address of the operand. The bytes of the operand are
the postbyte and its offset, and the cost is that of the submode and 3 more if indirect. Then PC is
behind the operand, the index register has moved in the automatic submodes, and nothing else is
changed. There has been no store. -/
theorem indexed_operand (m : Machine Ram) (code start : Word)
    (valid : ¬IndexedOperand.Meaningless (m.memory.read m.cpu.registers.pc)) :
    let r := m.cpu.registers
    let postbyte := m.memory.read r.pc
    let length := 1 + offsetLength postbyte
    let behind := { r with pc := r.pc + UInt16.ofNat length }
    let submode := behind.submode postbyte (m.memory.read (r.pc + 1)) (m.memory.word (r.pc + 1))
    let formed := UInt16.ofInt submode.address
    m.gives (resolve .indexed code start) = .ok
        { address := if isIndirect postbyte then m.memory.word formed else formed
          bytes := m.memory.bytesAt r.pc length
          cycles := submode.cycles + if isIndirect postbyte then 3 else 0 } ∧
      m.after (resolve .indexed code start)
        = m.withRegisters (behind.move (indexRegister postbyte) submode.distance) ∧
      (m.watched.after (resolve .indexed code start)).stores = [] := by
  intro r postbyte length behind submode formed
  obtain ⟨operand, decoded⟩ := Option.ne_none_iff_exists'.mp
    (mt (IndexedOperand.decode?_eq_none_iff postbyte).mp valid)
  obtain ⟨-, indirect, count⟩ := IndexedOperand.decode?_spec decoded
  -- the postbyte and its offset are fetched first
  have fetched : (m.after fetch).after (fetchBytes operand.form.length)
      = m.withRegisters behind := by
    show m.after (fetchBytes (operand.form.length + 1)) = _
    rw [after_fetchBytes, count, Nat.add_comm]
    rfl
  have bytes : m.gives fetch :: (m.after fetch).gives (fetchBytes operand.form.length)
      = m.memory.bytesAt r.pc length := by
    show m.gives (fetchBytes (operand.form.length + 1)) = _
    rw [gives_fetchBytes, count, Nat.add_comm]
  have rest : (m.after fetch).gives (fetchBytes operand.form.length)
      = m.memory.bytesAt (r.pc + 1) operand.form.length :=
    gives_fetchBytes _ _
  -- a byte behind the postbyte counts with its sign, a word as it stands
  have one : operand.form.length = 1 →
      operandWord ((m.after fetch).gives (fetchBytes operand.form.length))
        = signExtend (m.memory.read (r.pc + 1)) := by
    intro one
    rw [rest, one]
    simp [Ram.bytesAt, addressesFrom, operandWord]
  have two : operand.form.length = 2 →
      operandWord ((m.after fetch).gives (fetchBytes operand.form.length))
        = m.memory.word (r.pc + 1) := by
    intro two
    rw [rest, two]
    simp [Ram.bytesAt, addressesFrom, operandWord, Ram.word, List.range_succ]
  -- then the address is formed with PC behind them
  obtain ⟨cost, address, moved⟩ := submode_of_decode? decoded (m.withRegisters behind) _ _ one two
  obtain ⟨gives, after⟩ := resolveIndexed_of_decode? (m := m) decoded start
  rw [fetched, address, bytes] at gives
  rw [fetched, moved] at after
  refine ⟨?_, after, ?_⟩
  · rw [show submode.cycles = operand.form.cycles from cost.symm,
      show isIndirect postbyte = operand.indirect from indirect.symm]
    exact gives
  · rw [storeless_resolve]
    rfl

/-- A machine at a postbyte `[,--X]`, with 1 in X. The word that X moves down to has its low byte at
the first address of memory. -/
def indirectAround : Machine Ram :=
  let m := ofMemory { contents := #[0x93] }
  { m with cpu := m.cpu.setRegister .x 1 }

/-- The pointer lies across the end of memory. -/
theorem indexed_operand_around :
    indirectAround.gives (resolve .indexed 0xA6 0)
        = .ok { address := 0xCC93, bytes := [0x93], cycles := 6 } ∧
      (indirectAround.after (resolve .indexed 0xA6 0)).cpu.registers
        = { Registers.zero with x := 0xFFFF, pc := 1 } := by
  obtain ⟨gives, after, -⟩ := indexed_operand indirectAround 0xA6 0 (by decide)
  refine ⟨gives, ?_⟩
  rw [after]
  rfl

end Plain

end Machine

end Machine6809
