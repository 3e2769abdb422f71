import Machine6809.Proofs.Machine.Columns
import Mathlib.Data.Nat.Notation

/-!
# Addition of packed decimals

With ADCA and DAA in each column, bytes are pairs of decimal digits.
-/

namespace Machine6809

namespace Machine

variable {p q r : Word} {n : ℕ} {m done m' : Machine Ram}

/-- A byte is loaded from `p`, the one at `q` is added with the carry, the sum is adjusted, which is
where the machine is `done`, and stored at `r`. -/
def DecimalPass (p q r : Word) (m done m' : Machine Ram) : Prop :=
  ∃ loaded summed unused, m.Does "LDA" p loaded ∧ loaded.Does "ADCA" q summed ∧
    summed.Does "DAA" unused done ∧ done.Does "STA" r m'

/-- A pass with DAA computes one decimal column. -/
theorem DecimalPass.storesColumn (h : DecimalPass p q r m done m') :
    StoresColumn .sum .packed p q r m m' := by
  obtain ⟨loaded, summed, unused, load, add, adjust, store⟩ := h
  -- load, add, adjust, store
  obtain ⟨memory₁, value, carry⟩ := load.load .a (by decide)
  obtain ⟨memory₂, sum, codes⟩ := add.combine .sum .a (by decide)
  obtain ⟨memory₃, result, adjusted⟩ := adjust.daa rfl
  obtain ⟨stored, handed⟩ := store.store .a (by decide)
  have a : summed.cpu.registers.a = _ := sum
  rw [memory₁, value] at a codes
  rw [a, codes] at result adjusted
  refine ⟨done.cpu.registers.a, ?_, ?_⟩
  · rw [stored, memory₃, memory₂, memory₁]
    rfl
  · rw [result, handed, adjusted, ← carry]
    exact column_daa _ _ loaded.cpu.registers.cc

/-- **Addition of packed decimals of any length.** Let the bytes of two packed decimals be added and
adjusted column by column from the last one to the first, with the carry that is there at the start,
and with nothing between that touches C or the bytes. No result must fall on a byte that is still to
be read or on another result, and all of them must fall into memory. Then the results are the bytes
of a packed decimal, which is the sum modulo `100 ^ n`, and C is the carry out of it. -/
theorem decimal_addition
    (run : Columns DecimalPass (Occupied p q r n) p q r n m done m') (apart : Apart p q r n)
    (inside : ∀ k < n, (r + UInt16.ofNat k).toNat < m.memory.contents.size)
    (hP : m.memory.AllValid .packed p n) (hQ : m.memory.AllValid .packed q n) :
    let total := m.memory.number .packed p n + m.memory.number .packed q n
      + m.cpu.registers.cc.c.toNat
    m'.memory.AllValid .packed r n ∧ m'.memory.number .packed r n = total % 100 ^ n ∧
      (m'.cpu.registers.cc.c = true ↔ 100 ^ n ≤ total) := by
  intro total
  -- column by column, from the last digits to the first
  have computed := run.computed (fun _ _ _ _ _ _ => DecimalPass.storesColumn)
    (placed_occupied apart inside)
  have valid := computed.valid hP hQ
  -- the result fits its digits, so it is the sum up to the carry
  have bound := Ram.number_lt valid
  obtain ⟨result, handed⟩ := Arithmetic.eq_emod_and_carry_iff (computed.exact hP hQ)
    (by positivity) (mod_cast bound)
  have exact : Arithmetic.sum.apply (m.memory.number .packed p n) (m.memory.number .packed q n)
      m.cpu.registers.cc.c = total := rfl
  rw [exact] at result handed
  refine ⟨valid, mod_cast result, handed.trans ?_⟩
  rw [show Numeral.packed.base ^ n = 100 ^ n from rfl]
  generalize 100 ^ n = weight
  omega

/-- A loop that adds two packed decimals of two bytes, which B counts: LDA ,-X ADCA ,-Y DAA STA ,-U
DECB BNE. The numbers 9958 and 41 and the place for the sum follow it, and C is set. -/
def decimalLoop : Machine Ram :=
  let m := ofMemory { contents := #[0xA6, 0x82, 0xA9, 0xA2, 0x19, 0xA7, 0xC2, 0x5A, 0x26, 0xF6,
    0x99, 0x58, 0x00, 0x41, 0x00, 0x00] }
  { m with cpu := { m.cpu with registers := { m.cpu.registers with
      b := 2, x := 12, y := 14, u := 16, cc := { Flags.none with c := true } } } }

/-- The loop runs through its two columns, the last one first. -/
theorem decimalLoop_runs : Columns DecimalPass (Occupied 10 12 14 2) 10 12 14 2 decimalLoop
    (decimalLoop.executions 9) (decimalLoop.executions 10) := by
  -- a column takes six instructions, of which the first four make the pass
  have pass (k : ℕ) (p q r : Word)
      (load : (decimalLoop.executions k).Locates
        (.row 0xA6 "LDA" .indexed 4 (.binary .load .a)) ⟨p, [0x82], 2⟩)
      (add : (decimalLoop.executions (k + 1)).Locates
        (.row 0xA9 "ADCA" .indexed 4 (.binary .adc .a)) ⟨q, [0xA2], 2⟩)
      (adjust : (decimalLoop.executions (k + 2)).Locates (.inherent 0x19 "DAA" 2 .daa) ⟨0, [], 0⟩)
      (store : (decimalLoop.executions (k + 3)).Locates
        (.row 0xA7 "STA" .indexed 4 (.store .a)) ⟨r, [0xC2], 2⟩) :
      DecimalPass p q r (decimalLoop.executions k) (decimalLoop.executions (k + 3))
        (decimalLoop.executions (k + 4)) :=
    ⟨_, _, 0, ⟨_, _, performs_next load, rfl, rfl⟩, ⟨_, _, performs_next add, rfl, rfl⟩,
      ⟨_, _, performs_next adjust, rfl, rfl⟩, ⟨_, _, performs_next store, rfl, rfl⟩⟩
  -- the loop starts with the last column, in the first four executions
  have last := pass 0 11 13 15 (by decide +kernel) (by decide +kernel) (by decide +kernel)
    (by decide +kernel)
  have first := pass 6 10 12 14 (by decide +kernel) (by decide +kernel) (by decide +kernel)
    (by decide +kernel)
  have count : (decimalLoop.executions 4).Locates
      (.inherent 0x5A "DECB" 2 (.modifyAcc .dec .b)) ⟨0, [], 0⟩ := by decide +kernel
  have repeats : (decimalLoop.executions 5).Locates
      (.row 0x26 "BNE" .rel8 3 (.branch .ne)) ⟨0, [0xF6], 0⟩ := by decide +kernel
  -- DECB and BNE stand between the columns
  have between : Relation.ReflTransGen (Bystander (Occupied 10 12 14 2)) (decimalLoop.executions 4)
      (decimalLoop.executions 6) :=
    .tail (.single (bystander_next count (by decide +kernel) (by decide +kernel)))
      (bystander_next repeats (by decide +kernel) (by decide +kernel))
  exact .cons (.cons .nil .refl last) between first

/-- 9958 and 41 and the carry that comes in make 10000. -/
theorem decimal_addition_to_ten_thousand :
    (decimalLoop.executions 10).memory.number .packed 14 2 = 0 ∧
      (decimalLoop.executions 10).cpu.registers.cc.c = true := by
  -- the only pair of columns there is
  have apart : Apart 10 12 14 2 := by
    intro j i hji hi
    obtain ⟨rfl, rfl⟩ : j = 0 ∧ i = 1 := by omega
    decide
  have digits (p : Word) (first : Numeral.packed.Valid (decimalLoop.memory.read p))
      (second : Numeral.packed.Valid (decimalLoop.memory.read (p + 1))) :
      decimalLoop.memory.AllValid .packed p 2 :=
    Ram.allValid_succ.mpr ⟨first, Ram.allValid_succ.mpr ⟨second, nofun⟩⟩
  obtain ⟨-, sum, carry⟩ :=
    decimal_addition decimalLoop_runs apart (by decide)
      (digits 10 ⟨by decide +kernel, by decide +kernel⟩ ⟨by decide +kernel, by decide +kernel⟩)
      (digits 12 ⟨by decide +kernel, by decide +kernel⟩ ⟨by decide +kernel, by decide +kernel⟩)
  exact ⟨sum.trans (by decide +kernel), carry.mpr (by decide +kernel)⟩

end Machine

end Machine6809
