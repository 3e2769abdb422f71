import Machine6809.Proofs.Cpu.Digits
import Machine6809.Proofs.Machine.Lengths
import Mathlib.Data.Nat.Digits.Defs
import Mathlib.Data.Nat.Notation
import Mathlib.Logic.Relation

/-!
# Numbers of several bytes

A number of several bytes is added or subtracted byte by byte, from the last one to the first, and
the carry is handed on in C. What each byte contributes is a column (`Arithmetic.Column`), and
columns add up if nothing comes between that touches C or the bytes (`Machine.Columns.computed`).
Instructions that move pointers and count do not (`Machine.Bystander`).

What is done to the bytes of one column is left open here. The instructions that it is done with are
known by their mnemonics (`Machine.Does`).
-/

namespace Machine6809

/-! ### Numbers in memory -/

namespace Ram

variable {N : Numeral} {ram ram' : Ram} {p : Word} {n : ℕ}

/-- The number of `n` digits at an address, the first digit with the greatest weight. -/
def number (ram : Ram) (N : Numeral) (p : Word) (n : ℕ) : ℕ :=
  Nat.ofDigits N.base ((ram.bytesAt p n).map N.digit).reverse

/-- All bytes of a number are digits. -/
def AllValid (ram : Ram) (N : Numeral) (p : Word) (n : ℕ) : Prop :=
  ∀ k < n, N.Valid (ram.read (p + UInt16.ofNat k))

/-- The first byte and those behind it. -/
theorem bytesAt_succ (ram : Ram) (p : Word) (n : ℕ) :
    ram.bytesAt p (n + 1) = ram.read p :: ram.bytesAt (p + 1) n := by
  rw [bytesAt, addressesFrom_succ, List.map_cons]
  rfl

theorem length_bytesAt (ram : Ram) (p : Word) (n : ℕ) : (ram.bytesAt p n).length = n := by
  simp [bytesAt, addressesFrom]

/-- The first digit has the highest place. -/
theorem number_succ (ram : Ram) (N : Numeral) (p : Word) (n : ℕ) :
    ram.number N p (n + 1)
      = N.digit (ram.read p) * N.base ^ n + ram.number N (p + 1) n := by
  rw [number, bytesAt_succ, List.map_cons, List.reverse_cons, Nat.ofDigits_append,
    Nat.ofDigits_singleton, List.length_reverse, List.length_map, length_bytesAt, Nat.add_comm,
    Nat.mul_comm]
  rfl

/-- All digits are valid if the first is and the others are. -/
theorem allValid_succ :
    ram.AllValid N p (n + 1) ↔ N.Valid (ram.read p) ∧ ram.AllValid N (p + 1) n := by
  constructor
  · intro h
    refine ⟨by simpa using h 0 (by omega), fun k hk => ?_⟩
    rw [← add_ofNat_succ]
    exact h (k + 1) (by omega)
  · -- the head digit, or one of the others
    rintro ⟨first, rest⟩ k hk
    cases k with
    | zero => simpa using first
    | succ k =>
      rw [add_ofNat_succ]
      exact rest k (by omega)

/-- Valid digits make a number below the next power of the base. -/
theorem number_lt (h : ram.AllValid N p n) : ram.number N p n < N.base ^ n := by
  have digits : ∀ d ∈ ((ram.bytesAt p n).map N.digit).reverse, d < N.base := by
    simp only [bytesAt, addressesFrom, List.map_map, List.mem_reverse, List.mem_map, List.mem_range]
    rintro _ ⟨k, hk, rfl⟩
    exact N.digit_lt (h k hk)
  simpa [number, length_bytesAt] using Nat.ofDigits_lt_base_pow_length N.one_lt_base digits

/-- A byte written inside of memory is there. -/
theorem read_write_inside {address : Word} (h : address.toNat < ram.contents.size) (value : Byte) :
    (ram.write address value).read address = value := by
  simp [read, write, h]

/-- A number is a matter of what is read at the addresses of its digits. -/
theorem bytesAt_congr (same : ∀ k < n, ram'.read (p + UInt16.ofNat k)
    = ram.read (p + UInt16.ofNat k)) : ram'.bytesAt p n = ram.bytesAt p n := by
  simp only [bytesAt, addressesFrom, List.map_map]
  exact List.map_congr_left fun k hk => same k (List.mem_range.mp hk)

/-- A number depends on its own bytes. -/
theorem number_congr (same : ∀ k < n, ram'.read (p + UInt16.ofNat k)
    = ram.read (p + UInt16.ofNat k)) : ram'.number N p n = ram.number N p n := by
  rw [number, bytesAt_congr same]
  rfl

end Ram

namespace Machine

/-! ### What the instructions of a column do -/

section Effects

variable {m m' : Machine Ram} {row : Instruction} {operand : Located} {acc : Accumulator}

/-- Memory, the accumulators and the codes are as before. -/
structure Undisturbed (m m' : Machine Ram) : Prop where
  memory : m'.memory = m.memory
  accumulator : ∀ acc : Accumulator, acc.get m'.cpu.registers = acc.get m.cpu.registers
  codes : m'.cpu.registers.cc = m.cpu.registers.cc

/-- Fetching disturbs neither memory nor the codes. -/
theorem fetching_undisturbed : Fetching Undisturbed where
  refl _ := ⟨rfl, fun _ => rfl, rfl⟩
  trans _ _ _ h h' := ⟨h'.memory.trans h.memory,
    fun acc => (h'.accumulator acc).trans (h.accumulator acc), h'.codes.trans h.codes⟩
  load _ _ := ⟨rfl, fun _ => rfl, rfl⟩
  goto _ _ := ⟨rfl, fun acc => by cases acc <;> rfl, rfl⟩

/-- Nor does forming an indexed address. -/
theorem undisturbed_formAddress {operand : IndexedOperand}
    (h : operand.base ∈ [.x, .y, .u, .s]) (word : Word) (m : Machine Ram) :
    Undisturbed m (m.after (formAddress operand.base operand.form word)) := by
  obtain ⟨base, form, indirect⟩ := operand
  have four : base = .x ∨ base = .y ∨ base = .u ∨ base = .s := by simpa using h
  obtain rfl | rfl | rfl | rfl := four <;> cases form <;>
    exact ⟨rfl, fun acc => by cases acc <;> rfl, rfl⟩

/-- Until its operation is performed an instruction has no part in the computation. -/
theorem undisturbed_located (m : Machine Ram) (row : Instruction) :
    Undisturbed m (m.located row) := by
  have fetched := fetching_undisturbed.fetchOpcode m
  have opened : Undisturbed m m.opened := ⟨fetched.memory, fetched.accumulator, fetched.codes⟩
  have located : Undisturbed m.opened (m.located row) :=
    fetching_undisturbed.resolve row.code m.cpu.registers.pc
      (fun _ _ _ word decoded => undisturbed_formAddress (IndexedOperand.base_mem decoded) word)
      m.opened
  exact fetching_undisturbed.trans _ _ _ opened located

/-- The instruction at PC is carried out. Whatever else happens to the machine, its registers and
its memory are then as the instruction leaves them. -/
structure Performs (m : Machine Ram) (row : Instruction) (operand : Located) (m' : Machine Ram) :
    Prop where
  locates : m.Locates row operand
  registers : m'.cpu.registers = (m.after executeNext).cpu.registers
  memory : m'.memory = (m.after executeNext).memory

/-- The instruction at PC has this mnemonic and its operand is at this address. -/
def Does (m : Machine Ram) (mnemonic : String) (address : Word) (m' : Machine Ram) : Prop :=
  ∃ row operand, m.Performs row operand m' ∧ row.mnemonic = mnemonic ∧ operand.address = address

namespace Performs

variable (h : m.Performs row operand m')
include h

/-- Memory is as the operation leaves it. -/
theorem memory_eq :
    m'.memory = ((m.located row).after (perform row.operation operand.address)).memory := by
  rw [h.memory, h.locates.after]
  rfl

/-- So are the registers. -/
theorem registers_eq : m'.cpu.registers
    = ((m.located row).after (perform row.operation operand.address)).cpu.registers :=
  h.registers.trans h.locates.registers

theorem binary {op : BinaryOp} (operation : row.operation = .binary op acc) :
    let result := op.apply (acc.get m.cpu.registers) (m.memory.read operand.address)
      m.cpu.registers.cc
    m'.memory = m.memory ∧ acc.get m'.cpu.registers = result.1 ∧
      m'.cpu.registers.cc = result.2 := by
  have located := undisturbed_located m row
  rw [h.memory_eq, h.registers_eq, operation, registers_binary, ← located.accumulator,
    ← located.codes, ← located.memory]
  cases acc <;> exact ⟨rfl, rfl, rfl⟩

theorem store (operation : row.operation = .store acc) :
    m'.memory = m.memory.write operand.address (acc.get m.cpu.registers) ∧
      m'.cpu.registers.cc.c = m.cpu.registers.cc.c := by
  have located := undisturbed_located m row
  rw [h.memory_eq, h.registers_eq, operation, ← located.accumulator, ← located.codes,
    ← located.memory]
  exact ⟨rfl, rfl⟩

theorem daa (operation : row.operation = .daa) :
    let result := decimalAdjust m.cpu.registers.a m.cpu.registers.cc
    m'.memory = m.memory ∧ m'.cpu.registers.a = result.1 ∧ m'.cpu.registers.cc = result.2 := by
  have located := undisturbed_located m row
  have a : (m.located row).cpu.registers.a = m.cpu.registers.a := located.accumulator .a
  rw [h.memory_eq, h.registers_eq, operation, ← located.codes, ← located.memory, ← a]
  exact ⟨rfl, rfl, rfl⟩

/-- No instruction makes memory longer or shorter. -/
theorem size : m'.memory.contents.size = m.memory.contents.size := by
  -- no access changes the size, so it is an invariant of everything that is done with memory
  have lasting : Lasting fun ram : Ram => ram.contents.size = m.memory.contents.size :=
    ⟨fun _ _ same => same, fun ram _ _ same => (Ram.size_write ram _ _).trans same⟩
  rw [h.memory]
  exact holds_after (lasting.frame.executeNext arms_relates visits_relates) rfl

/-- An instruction that is listed as a bystander keeps C. -/
theorem carry (bystander : row.mnemonic ∈ Instruction.bystanders) :
    m'.cpu.registers.cc.c = m.cpu.registers.cc.c := by
  obtain ⟨used, success⟩ := h.locates.gives
  obtain ⟨row', lookup, framed⟩ := framesCodes_executeNext success
  obtain rfl := Option.some.inj (lookup.symm.trans h.locates.lookup)
  rw [h.registers]
  exact Instruction.carry_of_bystander bystander framed

end Performs

namespace Does

variable {mnemonic : String} {address : Word} (h : m.Does mnemonic address m')
include h

theorem load (acc : Accumulator) (name : mnemonic = "LD" ++ acc.letter) :
    m'.memory = m.memory ∧ acc.get m'.cpu.registers = m.memory.read address ∧
      m'.cpu.registers.cc.c = m.cpu.registers.cc.c := by
  obtain ⟨row, operand, performs, rfl, rfl⟩ := h
  have operation := Instruction.operation_of_mnemonic performs.locates.row_mem acc
  obtain ⟨memory, value, codes⟩ := performs.binary (operation.1 name)
  exact ⟨memory, value, congrArg (·.c) codes⟩

theorem combine (kind : Arithmetic) (acc : Accumulator)
    (name : mnemonic = kind.stem ++ acc.letter) :
    let result := kind.op.apply (acc.get m.cpu.registers) (m.memory.read address) m.cpu.registers.cc
    m'.memory = m.memory ∧ acc.get m'.cpu.registers = result.1 ∧
      m'.cpu.registers.cc = result.2 := by
  obtain ⟨row, operand, performs, rfl, rfl⟩ := h
  have operation := Instruction.operation_of_mnemonic performs.locates.row_mem acc
  exact performs.binary (operation.2.1 kind name)

theorem store (acc : Accumulator) (name : mnemonic = "ST" ++ acc.letter) :
    m'.memory = m.memory.write address (acc.get m.cpu.registers) ∧
      m'.cpu.registers.cc.c = m.cpu.registers.cc.c := by
  obtain ⟨row, operand, performs, rfl, rfl⟩ := h
  have operation := Instruction.operation_of_mnemonic performs.locates.row_mem acc
  exact performs.store (operation.2.2 name)

theorem daa (name : mnemonic = "DAA") :
    let result := decimalAdjust m.cpu.registers.a m.cpu.registers.cc
    m'.memory = m.memory ∧ m'.cpu.registers.a = result.1 ∧ m'.cpu.registers.cc = result.2 := by
  obtain ⟨row, operand, performs, rfl, rfl⟩ := h
  exact performs.daa ((Instruction.rows_columns row performs.locates.row_mem).2 name)

end Does

end Effects

/-! ### Columns -/

section Columns

variable {kind : Arithmetic} {N : Numeral} {kept : Word → Prop} {p q r : Word} {n : ℕ}
  {m m₁ m₂ m' done : Machine Ram}

/-- One digit of a result is stored at `r`. -/
def StoresColumn (kind : Arithmetic) (N : Numeral) (p q r : Word) (m m' : Machine Ram) : Prop :=
  ∃ z, m'.memory = m.memory.write r z ∧
    kind.Column N (m.memory.read p) (m.memory.read q) m.cpu.registers.cc.c z
      m'.cpu.registers.cc.c

/-- An instruction that leaves alone what the computation is about: the carry, and the bytes at some
addresses. -/
def Bystander (kept : Word → Prop) (m m' : Machine Ram) : Prop :=
  (∃ row operand, m.Performs row operand m' ∧ row.mnemonic ∈ Instruction.bystanders) ∧
    ∀ address, kept address → m'.memory.read address = m.memory.read address

/-- The digits at `p` and `q` are worked out, the last one first, and the results are stored at `r`.
Before each pass there may be bystanders. The machine is `done` after the result of the first
digit, which is the last one to be worked out, and then that is stored. -/
inductive Columns (Pass : Word → Word → Word → Machine Ram → Machine Ram → Machine Ram → Prop)
    (kept : Word → Prop) : Word → Word → Word → ℕ → Machine Ram → Machine Ram → Machine Ram → Prop
  | nil {p q r : Word} {m : Machine Ram} : Columns Pass kept p q r 0 m m m
  | cons {p q r : Word} {n : ℕ} {m below m₁ m₂ done m' : Machine Ram}
      (lower : Columns Pass kept (p + 1) (q + 1) (r + 1) n m below m₁)
      (between : Relation.ReflTransGen (Bystander kept) m₁ m₂) (pass : Pass p q r m₂ done m') :
      Columns Pass kept p q r (n + 1) m done m'

/-- The columns of `n` digits have been added up. -/
structure Computed (kind : Arithmetic) (N : Numeral) (kept : Word → Prop) (p q r : Word) (n : ℕ)
    (m m' : Machine Ram) : Prop where
  size : m'.memory.contents.size = m.memory.contents.size
  /-- Apart from the results the bytes are as before. -/
  elsewhere : ∀ address, kept address → (∀ k < n, address ≠ r + UInt16.ofNat k) →
    m'.memory.read address = m.memory.read address
  valid : m.memory.AllValid N p n → m.memory.AllValid N q n → m'.memory.AllValid N r n
  exact : m.memory.AllValid N p n → m.memory.AllValid N q n →
    kind.apply (m.memory.number N p n) (m.memory.number N q n) m.cpu.registers.cc.c
      = m'.memory.number N r n + kind.sign * (N.base ^ n : ℕ) * m'.cpu.registers.cc.c.toNat

/-- No result falls on a digit that is still to be read, nor on another result. -/
def Apart (p q r : Word) (n : ℕ) : Prop :=
  ∀ j i, j < i → i < n → r + UInt16.ofNat i ≠ p + UInt16.ofNat j ∧
    r + UInt16.ofNat i ≠ q + UInt16.ofNat j ∧ r + UInt16.ofNat i ≠ r + UInt16.ofNat j

/-- Bystanders hand on the carry and leave the kept addresses alone, however many they are. -/
theorem bystanders_between (h : Relation.ReflTransGen (Bystander kept) m m') :
    m'.memory.contents.size = m.memory.contents.size ∧
      m'.cpu.registers.cc.c = m.cpu.registers.cc.c ∧
      ∀ address, kept address → m'.memory.read address = m.memory.read address := by
  induction h with
  | refl => exact ⟨rfl, rfl, fun _ _ => rfl⟩
  | tail _ last ih =>
    obtain ⟨size, carry, keeps⟩ := ih
    obtain ⟨⟨row, operand, performs, bystander⟩, leaves⟩ := last
    refine ⟨performs.size.trans size, (performs.carry bystander).trans carry, fun address ha => ?_⟩
    exact (leaves address ha).trans (keeps address ha)

/-- Where the digits are and where the results go, in memory of some size. -/
structure Placed (kept : Word → Prop) (p q r : Word) (n size : ℕ) : Prop where
  kept : ∀ k < n, kept (p + UInt16.ofNat k) ∧ kept (q + UInt16.ofNat k) ∧ kept (r + UInt16.ofNat k)
  apart : Apart p q r n
  inside : ∀ k < n, (r + UInt16.ofNat k).toNat < size

/-- Without its first column the layout is one for the columns that are left. -/
theorem Placed.tail {size : ℕ} (h : Placed kept p q r (n + 1) size) :
    Placed kept (p + 1) (q + 1) (r + 1) n size := by
  constructor
  case kept =>
    intro k hk
    simpa only [add_ofNat_succ] using h.kept (k + 1) (by omega)
  case apart =>
    intro j i hji hi
    simpa only [add_ofNat_succ] using h.apart (j + 1) (i + 1) (by omega) (by omega)
  case inside =>
    intro k hk
    simpa only [add_ofNat_succ] using h.inside (k + 1) (by omega)

/-- The results after the first one fall on none of the first digits. -/
theorem Apart.head (h : Apart p q r (n + 1)) :
    ∀ k < n, p ≠ r + 1 + UInt16.ofNat k ∧ q ≠ r + 1 + UInt16.ofNat k ∧
      r ≠ r + 1 + UInt16.ofNat k := by
  intro k hk
  have zero : UInt16.ofNat 0 = 0 := rfl
  obtain ⟨hp, hq, hr⟩ := h 0 (k + 1) (by omega) (by omega)
  rw [add_ofNat_succ, zero, UInt16.add_zero] at hp hq hr
  exact ⟨hp.symm, hq.symm, hr.symm⟩

theorem Computed.nil (kind : Arithmetic) (N : Numeral) (kept : Word → Prop) (p q r : Word)
    (m : Machine Ram) : Computed kind N kept p q r 0 m m := by
  refine ⟨rfl, fun _ _ _ => rfl, fun _ _ => nofun, fun _ _ => ?_⟩
  rw [Arithmetic.apply_eq]
  simp [Ram.number, Ram.bytesAt, addressesFrom]

/-- The first digits are still there when their turn comes, and there is a place for the result. -/
theorem Computed.first (lower : Computed kind N kept (p + 1) (q + 1) (r + 1) n m m₁)
    (between : Relation.ReflTransGen (Bystander kept) m₁ m₂)
    (placed : Placed kept p q r (n + 1) m.memory.contents.size) :
    m₂.memory.read p = m.memory.read p ∧ m₂.memory.read q = m.memory.read q ∧
      ∀ z, (m₂.memory.write r z).read r = z := by
  obtain ⟨size, -, keeps⟩ := bystanders_between between
  obtain ⟨keptP, keptQ, -⟩ : kept p ∧ kept q ∧ kept r := by simpa using placed.kept 0 (by omega)
  have head := placed.apart.head
  have inside : r.toNat < m.memory.contents.size := by simpa using placed.inside 0 (by omega)
  refine ⟨(keeps p keptP).trans (lower.elsewhere p keptP fun k hk => (head k hk).1),
    (keeps q keptQ).trans (lower.elsewhere q keptQ fun k hk => (head k hk).2.1),
    Ram.read_write_inside ?_⟩
  rwa [size, lower.size]

/-- One more digit in front. -/
theorem Computed.cons (lower : Computed kind N kept (p + 1) (q + 1) (r + 1) n m m₁)
    (between : Relation.ReflTransGen (Bystander kept) m₁ m₂)
    (column : StoresColumn kind N p q r m₂ m')
    (placed : Placed kept p q r (n + 1) m.memory.contents.size) :
    Computed kind N kept p q r (n + 1) m m' := by
  obtain ⟨size, carry, keeps⟩ := bystanders_between between
  obtain ⟨z, stored, digits⟩ := column
  obtain ⟨first, second, place⟩ := lower.first between placed
  have head := placed.apart.head
  have result : m'.memory.read r = z := stored ▸ place z
  -- the other results stay where they are
  have rest : ∀ k < n, m'.memory.read (r + 1 + UInt16.ofNat k)
      = m₁.memory.read (r + 1 + UInt16.ofNat k) := by
    intro k hk
    have keptK := (placed.kept (k + 1) (by omega)).2.2
    rw [add_ofNat_succ] at keptK
    rw [stored, Ram.read_write_of_ne (head k hk).2.2]
    exact keeps _ keptK
  rw [first, second, carry] at digits
  constructor
  case size => rw [stored, Ram.size_write, size, lower.size]
  case elsewhere =>
    intro address ha other
    -- the column stores at its own place, and all lower ones at theirs
    have notFirst : r ≠ address := by simpa using (other 0 (by omega)).symm
    rw [stored, Ram.read_write_of_ne notFirst, keeps address ha]
    refine lower.elsewhere address ha fun k hk => ?_
    rw [← add_ofNat_succ]
    exact other (k + 1) (by omega)
  case valid =>
    intro hP hQ
    obtain ⟨hx, hP⟩ := Ram.allValid_succ.mp hP
    obtain ⟨hy, hQ⟩ := Ram.allValid_succ.mp hQ
    refine Ram.allValid_succ.mpr ⟨?_, fun k hk => ?_⟩
    · rw [result]
      exact (digits hx hy).1
    · rw [rest k hk]
      exact lower.valid hP hQ k hk
  case exact =>
    intro hP hQ
    obtain ⟨hx, hP⟩ := Ram.allValid_succ.mp hP
    obtain ⟨hy, hQ⟩ := Ram.allValid_succ.mp hQ
    have lower := lower.exact hP hQ
    -- the lower columns hand their carry to the head digit, which weighs most
    have upper := (digits hx hy).2
    rw [Ram.number_succ, Ram.number_succ, Ram.number_succ, result, Ram.number_congr rest, pow_succ']
    push_cast at lower ⊢
    rw [Arithmetic.apply_weighted lower, upper]
    ring

/-- **Columns add up.** If each pass stores a column, the passes together compute the sum or the
difference of the numbers. -/
theorem Columns.computed
    {Pass : Word → Word → Word → Machine Ram → Machine Ram → Machine Ram → Prop}
    (sound : ∀ p q r m done m', Pass p q r m done m' → StoresColumn kind N p q r m m')
    (run : Columns Pass kept p q r n m done m')
    (placed : Placed kept p q r n m.memory.contents.size) :
    Computed kind N kept p q r n m m' := by
  -- the first column is the last one to be worked out, when all that follows it is done
  induction run with
  | nil => exact .nil _ _ _ _ _ _ _
  | cons lower between pass ih =>
    exact (ih placed.tail).cons between (sound _ _ _ _ _ _ pass) placed

/-- The addresses of two numbers and of the result. -/
def Occupied (p q r : Word) (n : ℕ) (address : Word) : Prop :=
  ∃ k < n, address = p + UInt16.ofNat k ∨ address = q + UInt16.ofNat k ∨
    address = r + UInt16.ofNat k

/-- Operands that stay apart from the results behind them are laid out for a pass. -/
theorem placed_occupied {size : ℕ} (apart : Apart p q r n)
    (inside : ∀ k < n, (r + UInt16.ofNat k).toNat < size) :
    Placed (Occupied p q r n) p q r n size where
  kept k hk := ⟨⟨k, hk, .inl rfl⟩, ⟨k, hk, .inr (.inl rfl)⟩, ⟨k, hk, .inr (.inr rfl)⟩⟩
  apart := apart
  inside := inside

/-! ### Runs -/

instance (m : Machine Ram) (row : Instruction) (operand : Located) :
    Decidable (m.Locates row operand) :=
  decidable_of_iff (OpcodeMap.lookup? (m.gives fetchOpcode).1 = some row ∧
      m.opened.gives (resolve row.mode row.code m.cpu.registers.pc) = .ok operand)
    ⟨fun h => ⟨h.1, h.2⟩, fun h => ⟨h.lookup, h.resolved⟩⟩

/-- The machine after a number of instructions. -/
def executions (m : Machine Ram) : ℕ → Machine Ram
  | 0 => m
  | k + 1 => (m.executions k).after executeNext

/-- An instruction whose operand is located is performed by the next execution. -/
theorem performs_next {row : Instruction} {operand : Located} (h : m.Locates row operand) :
    m.Performs row operand (m.after executeNext) :=
  ⟨h, rfl, rfl⟩

/-- A bystander that changes no memory is one wherever it runs. -/
theorem bystander_next {row : Instruction} {operand : Located} (h : m.Locates row operand)
    (bystander : row.mnemonic ∈ Instruction.bystanders)
    (same : (m.after executeNext).memory = m.memory) : Bystander kept m (m.after executeNext) :=
  ⟨⟨row, operand, performs_next h, bystander⟩, fun address _ => congrArg (·.read address) same⟩

end Columns

end Machine

end Machine6809
