import Machine6809.Proofs.Machine.Columns
import Mathlib.Data.Nat.Notation

/-!
# Addition and subtraction of any length

With ADC or SBC in each column, bytes are digits to the base 256. The last column to be worked out
is that of the first bytes, and what it leaves in V and N is right for the numbers as a whole
(`Machine.BinaryPass.signs`).
-/

namespace Machine6809

namespace Machine

variable {kind : Arithmetic} {p q r : Word} {n : ℕ} {m done m' : Machine Ram}

/-- A byte is loaded from `p`, the one at `q` is added or subtracted with the carry, which is where
the machine is `done`, and the result is stored at `r`. -/
def BinaryPass (kind : Arithmetic) (p q r : Word) (m done m' : Machine Ram) : Prop :=
  ∃ (acc : Accumulator) (loaded : Machine Ram), m.Does ("LD" ++ acc.letter) p loaded ∧
    loaded.Does (kind.stem ++ acc.letter) q done ∧ done.Does ("ST" ++ acc.letter) r m'

/-- A pass stores one digit and hands on its carry. -/
theorem BinaryPass.effect (h : BinaryPass kind p q r m done m') :
    ∃ cc : Flags, cc.c = m.cpu.registers.cc.c ∧
      let result := kind.op.apply (m.memory.read p) (m.memory.read q) cc
      m'.memory = m.memory.write r result.1 ∧ done.cpu.registers.cc = result.2 ∧
        m'.cpu.registers.cc.c = result.2.c := by
  obtain ⟨acc, loaded, load, combine, store⟩ := h
  -- load, combine, store; what comes between them keeps the carry
  obtain ⟨memory₁, value, carry⟩ := load.load acc rfl
  obtain ⟨memory₂, result, codes⟩ := combine.combine kind acc rfl
  obtain ⟨stored, handed⟩ := store.store acc rfl
  rw [memory₁, value] at result codes
  refine ⟨loaded.cpu.registers.cc, carry, ?_, codes, ?_⟩
  · rw [stored, memory₂, memory₁, result]
  · rw [handed, codes]

/-- So it computes one column. -/
theorem BinaryPass.storesColumn (h : BinaryPass kind p q r m done m') :
    StoresColumn kind .binary p q r m m' := by
  obtain ⟨cc, carry, stored, -, handed⟩ := h.effect
  refine ⟨_, stored, ?_⟩
  rw [handed, ← carry]
  exact column_op _ _ cc kind

/-- Any byte is a digit of base 256. -/
theorem allValid_binary (ram : Ram) (p : Word) (n : ℕ) : ram.AllValid .binary p n :=
  fun _ _ => trivial

/-- The first column decides on the sign and on whether the result as a whole fits. -/
theorem BinaryPass.signs {kept : Word → Prop} {m₁ m₂ : Machine Ram}
    (pass : BinaryPass kind p q r m₂ done m')
    (lower : Computed kind .binary kept (p + 1) (q + 1) (r + 1) n m m₁)
    (between : Relation.ReflTransGen (Bystander kept) m₁ m₂)
    (placed : Placed kept p q r (n + 1) m.memory.contents.size) :
    (done.cpu.registers.cc.v = true ↔ ¬SignedFits (8 * (n + 1))
        (kind.apply (signedValue (8 * (n + 1)) (m.memory.number .binary p (n + 1)))
          (signedValue (8 * (n + 1)) (m.memory.number .binary q (n + 1)))
          m.cpu.registers.cc.c)) ∧
      done.cpu.registers.cc.n
        = (m'.memory.number .binary r (n + 1)).testBit (8 * (n + 1) - 1) := by
  obtain ⟨cc, carry, stored, codes, -⟩ := pass.effect
  obtain ⟨first, second, place⟩ := lower.first between placed
  obtain ⟨-, handed, -⟩ := bystanders_between between
  obtain ⟨negative, overflow⟩ := signs_op (m₂.memory.read p) (m₂.memory.read q) cc kind
  have result : m'.memory.read r = _ := stored ▸ place _
  have cons (ram : Ram) (p : Word) : ram.number .binary p (n + 1)
      = (ram.read p).toNat * 256 ^ n + ram.number .binary (p + 1) n := ram.number_succ .binary p n
  have bound (ram : Ram) (p : Word) : ram.number .binary p n < 256 ^ n :=
    Ram.number_lt (allValid_binary ram p n)
  constructor
  · -- what follows the first bytes comes down to the carry into their column
    have rest := lower.exact (allValid_binary _ _ n) (allValid_binary _ _ n)
    have weight : ((Numeral.binary.base ^ n : ℕ) : ℤ) = 256 ^ n := mod_cast rfl
    rw [weight, ← handed, ← carry] at rest
    rw [cons, cons, signedValue_cons _ (bound _ _), signedValue_cons _ (bound _ _),
      Arithmetic.apply_weighted rest, signedFits_cons _ (bound _ _), codes, overflow, first, second]
    simp
  · -- N is the top bit of the first byte
    rw [cons, testBit_cons _ (bound _ _), codes, negative, result]

/-- **Addition and subtraction of any length.** Let the bytes of two numbers be added, or
subtracted, column by column from the last one to the first, with the carry or borrow that is there
at the start, and with nothing between that touches C or the bytes. No result must fall on a byte
that is still to be read or on another result, and all of them must fall into memory. Then the
results are the bytes of the sum or difference modulo `256 ^ n`, and C says whether that is not the
sum or difference itself. Once the first column is worked out, V says whether the numbers in two's
complement have a sum or difference that does not fit, and N is the sign of the result. -/
theorem multiprecision (kind : Arithmetic) (positive : 0 < n)
    (run : Columns (BinaryPass kind) (Occupied p q r n) p q r n m done m') (apart : Apart p q r n)
    (inside : ∀ k < n, (r + UInt16.ofNat k).toNat < m.memory.contents.size) :
    let P := m.memory.number .binary p n
    let Q := m.memory.number .binary q n
    let carry := m.cpu.registers.cc.c
    let exact := kind.apply P Q carry
    m'.memory.number .binary r n = exact % 256 ^ n ∧
      (m'.cpu.registers.cc.c = true ↔ ¬(0 ≤ exact ∧ exact < 256 ^ n)) ∧
      done.cpu.registers.cc.c = m'.cpu.registers.cc.c ∧
      (done.cpu.registers.cc.v = true ↔ ¬SignedFits (8 * n)
        (kind.apply (signedValue (8 * n) P) (signedValue (8 * n) Q) carry)) ∧
      done.cpu.registers.cc.n = (m'.memory.number .binary r n).testBit (8 * n - 1) := by
  intro P Q carry exact
  have placed := placed_occupied apart inside
  have computed := run.computed (fun _ _ _ _ _ _ => BinaryPass.storesColumn) placed
  have total := computed.exact (allValid_binary _ p n) (allValid_binary _ q n)
  have bound := Ram.number_lt (allValid_binary m'.memory r n)
  obtain ⟨result, handed⟩ := Arithmetic.eq_emod_and_carry_iff total (by positivity) (mod_cast bound)
  refine ⟨result, handed, ?_⟩
  obtain ⟨k, rfl⟩ := Nat.exists_eq_add_one.mpr positive
  -- V and N are those of the last pass, which is the one of the first bytes
  cases run with
  | cons lower between pass =>
    have below := lower.computed (fun _ _ _ _ _ _ => BinaryPass.storesColumn) placed.tail
    obtain ⟨cc, -, -, codes, stored⟩ := pass.effect
    exact ⟨by rw [codes, stored], pass.signs below between placed⟩

/-- A loop that adds two numbers of two bytes, which B counts: LDA ,-X ADCA ,-Y STA ,-U DECB BNE.
The numbers `$7FFF` and 0 and the place for the sum follow it, and C is set. -/
def addingLoop : Machine Ram :=
  let m := ofMemory { contents := #[0xA6, 0x82, 0xA9, 0xA2, 0xA7, 0xC2, 0x5A, 0x26, 0xF7,
    0x7F, 0xFF, 0x00, 0x00, 0x00, 0x00] }
  { m with cpu := { m.cpu with registers := { m.cpu.registers with
      b := 2, x := 11, y := 13, u := 15, cc := { Flags.none with c := true } } } }

/-- The loop runs through its two columns, the last one first. -/
theorem addingLoop_runs : Columns (BinaryPass .sum) (Occupied 9 11 13 2) 9 11 13 2 addingLoop
    (addingLoop.executions 7) (addingLoop.executions 8) := by
  -- a column takes five instructions, of which the first three make the pass
  have pass (k : ℕ) (p q r : Word)
      (load : (addingLoop.executions k).Locates
        (.row 0xA6 "LDA" .indexed 4 (.binary .load .a)) ⟨p, [0x82], 2⟩)
      (add : (addingLoop.executions (k + 1)).Locates
        (.row 0xA9 "ADCA" .indexed 4 (.binary .adc .a)) ⟨q, [0xA2], 2⟩)
      (store : (addingLoop.executions (k + 2)).Locates
        (.row 0xA7 "STA" .indexed 4 (.store .a)) ⟨r, [0xC2], 2⟩) :
      BinaryPass .sum p q r (addingLoop.executions k) (addingLoop.executions (k + 2))
        (addingLoop.executions (k + 3)) :=
    ⟨.a, _, ⟨_, _, performs_next load, by decide, rfl⟩, ⟨_, _, performs_next add, by decide, rfl⟩,
      ⟨_, _, performs_next store, by decide, rfl⟩⟩
  have last := pass 0 10 12 14 (by decide +kernel) (by decide +kernel) (by decide +kernel)
  have first := pass 5 9 11 13 (by decide +kernel) (by decide +kernel) (by decide +kernel)
  have count : (addingLoop.executions 3).Locates
      (.inherent 0x5A "DECB" 2 (.modifyAcc .dec .b)) ⟨0, [], 0⟩ := by decide +kernel
  have repeats : (addingLoop.executions 4).Locates
      (.row 0x26 "BNE" .rel8 3 (.branch .ne)) ⟨0, [0xF7], 0⟩ := by decide +kernel
  -- DECB and BNE stand between the columns
  have between : Relation.ReflTransGen (Bystander (Occupied 9 11 13 2)) (addingLoop.executions 3)
      (addingLoop.executions 5) :=
    .tail (.single (bystander_next count (by decide +kernel) (by decide +kernel)))
      (bystander_next repeats (by decide +kernel) (by decide +kernel))
  exact .cons (.cons .nil .refl last) between first

/-- With the carry that comes in, the sum has a sign bit that it should not have. -/
theorem multiprecision_carry_into_sign :
    (addingLoop.executions 8).memory.number .binary 13 2 = 0x8000 ∧
      (addingLoop.executions 7).cpu.registers.cc.v = true ∧
      (addingLoop.executions 7).cpu.registers.cc.n = true := by
  -- the only pair of columns there is
  have apart : Apart 9 11 13 2 := by
    intro j i hji hi
    obtain ⟨rfl, rfl⟩ : j = 0 ∧ i = 1 := by omega
    decide
  obtain ⟨result, -, -, overflow, sign⟩ :=
    multiprecision .sum (by decide) addingLoop_runs apart (by decide)
  have sum : (addingLoop.executions 8).memory.number .binary 13 2 = 0x8000 :=
    Int.ofNat_inj.mp (result.trans (by decide +kernel))
  refine ⟨sum, overflow.mpr (by decide +kernel), ?_⟩
  rw [sign, sum]
  decide

end Machine

end Machine6809
