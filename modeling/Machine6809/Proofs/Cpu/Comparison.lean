import Machine6809.Cpu.OpcodeMap
import Mathlib.Data.Nat.Notation
import Mathlib.Tactic.Ring

/-!
# What a comparison says about the order of its operands

The codes of a subtraction can be read off a difference that is carried out in twice the width of
the operands, where it wraps around below zero (`wideDifference`). Its low half is the result and
the bit above that the borrow. The overflow is the sum of four bits: the signs of the operands, the
sign of the result and the borrow (`Flags.withDifference`). The arithmetic unit states the same
codes on integers (`sub8_eq` and `sub16_eq`).

After that the conditions of the branches decide how the operands compare, both as unsigned numbers
and in two's complement (`decidesOrder_withDifference`). This holds in every width. The sign of the
result alone would not do for two's complement, since it is wrong just when the difference does not
fit (`n_eq_v_withDifference`).
-/

namespace Machine6809

/-- The difference of two numbers of `w` bits as a number of `2 * w` bits. -/
def wideDifference (w r m : ℕ) : ℕ := (2 ^ (2 * w) + r - m) % 2 ^ (2 * w)

/-- The codes that a subtraction leaves, read off the bits of the wide difference. -/
def Flags.withDifference (cc : Flags) (w r m : ℕ) : Flags :=
  let d := wideDifference w r m
  { cc with
    n := d.testBit (w - 1)
    z := d % 2 ^ w == 0
    v := (r ^^^ m ^^^ d ^^^ d >>> 1).testBit (w - 1)
    c := d.testBit w }

/-- The integer that `n` stands for in two's complement, in `w` bits. -/
def signedValue (w n : ℕ) : ℤ := if n < 2 ^ (w - 1) then n else n - 2 ^ w

/-- The difference in two's complement can be written in `w` bits. -/
def DifferenceFits (w r m : ℕ) : Prop :=
  -2 ^ (w - 1) ≤ signedValue w r - signedValue w m ∧
    signedValue w r - signedValue w m < 2 ^ (w - 1)

instance (w r m : ℕ) : Decidable (DifferenceFits w r m) := inferInstanceAs (Decidable (_ ∧ _))

/-- The conditions decide the order of `r` and `m`, where `decided c p` says that the condition `c`
comes down to `p`. -/
structure DecidesOrder (decided : Condition → Prop → Prop) (w r m : ℕ) : Prop where
  hi : decided .hi (r > m)
  hs : decided .hs (r ≥ m)
  lo : decided .lo (r < m)
  ls : decided .ls (r ≤ m)
  gt : decided .gt (signedValue w r > signedValue w m)
  ge : decided .ge (signedValue w r ≥ signedValue w m)
  lt : decided .lt (signedValue w r < signedValue w m)
  le : decided .le (signedValue w r ≤ signedValue w m)
  eq : decided .eq (r = m)
  ne : decided .ne (r ≠ m)
  vs : decided .vs (¬DifferenceFits w r m)
  vc : decided .vc (DifferenceFits w r m)

/-- What decides the order in one sense does so in a weaker one. -/
theorem DecidesOrder.mono {decided decided' : Condition → Prop → Prop} {w r m : ℕ}
    (h : DecidesOrder decided w r m) (imp : ∀ c p, decided c p → decided' c p) :
    DecidesOrder decided' w r m where
  hi := imp _ _ h.hi
  hs := imp _ _ h.hs
  lo := imp _ _ h.lo
  ls := imp _ _ h.ls
  gt := imp _ _ h.gt
  ge := imp _ _ h.ge
  lt := imp _ _ h.lt
  le := imp _ _ h.le
  eq := imp _ _ h.eq
  ne := imp _ _ h.ne
  vs := imp _ _ h.vs
  vc := imp _ _ h.vc

/-! ### The bits of the wide difference -/

section Bits

variable {w k r m n : ℕ}

/-- Without a borrow the wide difference is the difference. -/
theorem wideDifference_of_le (h : m ≤ r) (hr : r < 2 ^ w) : wideDifference w r m = r - m := by
  have wide : 2 ^ w ≤ 2 ^ (2 * w) := Nat.pow_le_pow_right (by omega) (by omega)
  rw [wideDifference, Nat.add_sub_assoc h, Nat.add_mod_left, Nat.mod_eq_of_lt (by omega)]

/-- Below zero all bits above the low half are set. -/
theorem wideDifference_of_lt (h : r < m) (hm : m < 2 ^ w) :
    wideDifference w r m = 2 ^ w * (2 ^ w - 1) + (2 ^ w + r - m) := by
  have wide : 2 ^ (2 * w) = 2 ^ w * (2 ^ w - 1) + 2 ^ w := by
    rw [← Nat.mul_add_one, Nat.sub_add_cancel Nat.one_le_two_pow, ← pow_add, two_mul]
  rw [wideDifference, Nat.mod_eq_of_lt (by omega), wide]
  omega

/-- The low half is the result. -/
theorem wideDifference_mod (hr : r < 2 ^ w) (hm : m < 2 ^ w) :
    wideDifference w r m % 2 ^ w = if r < m then 2 ^ w + r - m else r - m := by
  split
  case isTrue h =>
    rw [wideDifference_of_lt h hm, Nat.mul_add_mod, Nat.mod_eq_of_lt (by omega)]
  case isFalse h => rw [wideDifference_of_le (by omega) hr, Nat.mod_eq_of_lt (by omega)]

/-- The bit above the low half is the borrow. -/
theorem testBit_wideDifference (hw : 0 < w) (hr : r < 2 ^ w) (hm : m < 2 ^ w) :
    (wideDifference w r m).testBit w = decide (r < m) := by
  by_cases h : r < m
  · -- the high half is then `2 ^ w - 1`, which is odd
    have low : 2 ^ w + r - m < 2 ^ w := by omega
    have high : wideDifference w r m / 2 ^ w = 2 ^ w - 1 := by
      rw [wideDifference_of_lt h hm, Nat.mul_add_div (Nat.two_pow_pos w), Nat.div_eq_of_lt low,
        Nat.add_zero]
    obtain ⟨k, rfl⟩ := Nat.exists_eq_add_one.mpr hw
    have odd : (2 ^ (k + 1) - 1) % 2 = 1 := by
      have := Nat.two_pow_pos k
      rw [pow_succ]
      omega
    simp [Nat.testBit_eq_decide_div_mod_eq, high, odd, h]
  · rw [wideDifference_of_le (by omega) hr, Nat.testBit_lt_two_pow (by omega), decide_eq_false h]

/-- The top bit of a number of `k + 1` bits. -/
theorem testBit_top (h : n < 2 ^ (k + 1)) : n.testBit k = decide (2 ^ k ≤ n) := by
  have digit : n / 2 ^ k < 2 := Nat.div_lt_of_lt_mul (by rwa [← pow_succ])
  rw [Nat.testBit_eq_decide_div_mod_eq, Nat.mod_eq_of_lt digit, decide_eq_decide]
  rw [← Nat.one_le_div_iff (Nat.two_pow_pos k)]
  omega

end Bits

/-! ### The codes as statements about numbers -/

section Codes

variable {w r m : ℕ} (cc : Flags)

/-- C is the borrow. -/
theorem c_withDifference (hw : 0 < w) (hr : r < 2 ^ w) (hm : m < 2 ^ w) :
    (cc.withDifference w r m).c = decide (r < m) :=
  testBit_wideDifference hw hr hm

/-- Z tells equality. -/
theorem z_withDifference (hr : r < 2 ^ w) (hm : m < 2 ^ w) :
    (cc.withDifference w r m).z = decide (r = m) := by
  show (wideDifference w r m % 2 ^ w == 0) = _
  rw [wideDifference_mod hr hm, beq_eq_decide, decide_eq_decide]
  split <;> omega

/-- The sign is the top bit of the low half. -/
theorem n_withDifference (hw : 0 < w) (hr : r < 2 ^ w) (hm : m < 2 ^ w) :
    (cc.withDifference w r m).n
      = (if r < m then 2 ^ w + r - m else r - m).testBit (w - 1) := by
  rw [← wideDifference_mod hr hm, Nat.testBit_mod_two_pow,
    decide_eq_true (Nat.sub_lt hw one_pos), Bool.true_and]
  rfl

/-- Two bits differ if one of two facts holds without the other. -/
theorem xor_decide (p q : Prop) [Decidable p] [Decidable q] :
    (decide p ^^ decide q) = decide ¬(p ↔ q) := by
  by_cases p <;> by_cases q <;> simp [*]

/-- The overflow is the sum of the signs of the operands, the sign of the result and the borrow. -/
theorem v_withDifference (hw : 0 < w) (hr : r < 2 ^ w) (hm : m < 2 ^ w) :
    (cc.withDifference w r m).v = decide (¬DifferenceFits w r m) := by
  have borrow := c_withDifference cc hw hr hm
  have sign := n_withDifference cc hw hr hm
  obtain ⟨k, rfl⟩ := Nat.exists_eq_add_one.mpr hw
  have low : (if r < m then 2 ^ (k + 1) + r - m else r - m) < 2 ^ (k + 1) := by split <;> omega
  have sum : (cc.withDifference (k + 1) r m).v
      = (r.testBit k ^^ m.testBit k ^^ (cc.withDifference (k + 1) r m).n
        ^^ (cc.withDifference (k + 1) r m).c) := by
    simp [Flags.withDifference, Nat.add_comm]
  rw [sum, borrow, sign, testBit_top hr, testBit_top hm]
  rw [Nat.add_sub_cancel, testBit_top low]
  -- with the sign bits read as comparisons with half the range, only linear arithmetic is left
  have cast : (2 : ℤ) ^ k = (2 ^ k : ℕ) := by push_cast; rfl
  simp only [xor_decide, DifferenceFits, signedValue, Nat.add_sub_cancel, pow_succ, cast,
    decide_eq_decide] at *
  generalize 2 ^ k = half at *
  split_ifs <;> omega

/-- The sign of the result is wrong just when the difference does not fit. -/
theorem n_eq_v_withDifference (hw : 0 < w) (hr : r < 2 ^ w) (hm : m < 2 ^ w) :
    (cc.withDifference w r m).n = (cc.withDifference w r m).v
      ↔ signedValue w m ≤ signedValue w r := by
  rw [n_withDifference cc hw hr hm, v_withDifference cc hw hr hm]
  obtain ⟨k, rfl⟩ := Nat.exists_eq_add_one.mpr hw
  have low : (if r < m then 2 ^ (k + 1) + r - m else r - m) < 2 ^ (k + 1) := by split <;> omega
  rw [Nat.add_sub_cancel, testBit_top low, decide_eq_decide]
  have cast : (2 : ℤ) ^ k = (2 ^ k : ℕ) := by push_cast; rfl
  simp only [DifferenceFits, signedValue, Nat.add_sub_cancel, pow_succ, cast] at *
  generalize 2 ^ k = half at *
  split_ifs <;> omega

/-- The codes of a subtraction whose result is `d`. -/
theorem withDifference_eq {d : ℕ} (hw : 0 < w) (hr : r < 2 ^ w) (hm : m < 2 ^ w)
    (hd : d = if r < m then 2 ^ w + r - m else r - m) :
    cc.withDifference w r m =
      { cc with
        n := d.testBit (w - 1)
        z := decide (d = 0)
        v := !decide (DifferenceFits w r m)
        c := decide (r < m) } := by
  -- a difference is zero as a word of this width if it is zero
  have zero : (cc.withDifference w r m).z = decide (d = 0) := by
    rw [hd, ← wideDifference_mod hr hm, ← beq_eq_decide]
    rfl
  rw [← zero, hd, ← n_withDifference cc hw hr hm, ← decide_not,
    ← v_withDifference cc hw hr hm, ← c_withDifference cc hw hr hm]
  rfl

/-- Two numbers with the same value in two's complement are the same. -/
theorem signedValue_inj (hr : r < 2 ^ w) (hm : m < 2 ^ w)
    (h : signedValue w r = signedValue w m) : r = m := by
  have cast : (2 : ℤ) ^ w = (2 ^ w : ℕ) := by push_cast; rfl
  simp only [signedValue, cast] at h
  split_ifs at h <;> omega

/-- **The conditions decide the order.** In every width, after a subtraction of `m` from `r` each
condition holds just when the operands compare as it says. -/
theorem decidesOrder_withDifference (hw : 0 < w) (hr : r < 2 ^ w) (hm : m < 2 ^ w) :
    DecidesOrder (fun condition p => condition.holds (cc.withDifference w r m) = true ↔ p)
      w r m := by
  have borrow := c_withDifference cc hw hr hm
  have zero := z_withDifference cc hr hm
  have overflow := v_withDifference cc hw hr hm
  have sign := n_eq_v_withDifference cc hw hr hm
  have same : r = m ↔ signedValue w r = signedValue w m := ⟨congrArg _, signedValue_inj hr hm⟩
  -- how the codes have come about does not matter any more
  generalize cc.withDifference w r m = cc' at *
  constructor
  case hi | hs | lo | ls | eq | ne => simp [Condition.holds, borrow, zero] <;> omega
  case vs | vc => simp [Condition.holds, overflow]
  case ge | lt => simp [Condition.holds, sign]
  case gt | le =>
    -- these two also look at Z, which has to be said of the signed numbers
    simp only [Condition.holds, zero, sign, same, Bool.and_eq_true, Bool.or_eq_true,
      Bool.not_eq_true', decide_eq_true_eq, decide_eq_false_iff_not, beq_iff_eq, bne_iff_ne, ne_eq]
    omega

end Codes

/-! ### The arithmetic unit -/

/-- The signed value of a byte. -/
theorem signed8_eq (b : Byte) : signed8 b = signedValue 8 b.toNat := by
  simp [signed8, signedValue, UInt8.lt_iff_toNat_lt]

theorem signed16_eq (b : Word) : signed16 b = signedValue 16 b.toNat := by
  simp [signed16, signedValue, UInt16.lt_iff_toNat_lt]

/-- Subtracting bytes sets the codes as the difference of their numbers does. -/
theorem sub8_eq (a b : Byte) (cc : Flags) :
    sub8 a b false cc = (a - b, cc.withDifference 8 a.toNat b.toNat) := by
  have ha : a.toNat < 2 ^ 8 := a.toNat_lt
  have hb : b.toNat < 2 ^ 8 := b.toNat_lt
  -- the byte of the difference, with 256 added if there is a borrow
  have result : (a - b).toNat
      = if a.toNat < b.toNat then 2 ^ 8 + a.toNat - b.toNat else a.toNat - b.toNat := by
    rw [UInt8.toNat_sub]
    split <;> omega
  have zero : (a - b == 0) = decide ((a - b).toNat = 0) := by
    rw [beq_eq_decide, decide_eq_decide]
    exact UInt8.toNat_inj.symm
  rw [withDifference_eq cc (by omega) ha hb result]
  simp [sub8, Flags.withResult8, bitOf, zero, fits8, signed8_eq, DifferenceFits]

theorem sub16_eq (a b : Word) (cc : Flags) :
    sub16 a b cc = (a - b, cc.withDifference 16 a.toNat b.toNat) := by
  have ha : a.toNat < 2 ^ 16 := a.toNat_lt
  have hb : b.toNat < 2 ^ 16 := b.toNat_lt
  -- as before, with 65536
  have result : (a - b).toNat
      = if a.toNat < b.toNat then 2 ^ 16 + a.toNat - b.toNat else a.toNat - b.toNat := by
    rw [UInt16.toNat_sub]
    split <;> omega
  have zero : (a - b == 0) = decide ((a - b).toNat = 0) := by
    rw [beq_eq_decide, decide_eq_decide]
    exact UInt16.toNat_inj.symm
  rw [withDifference_eq cc (by omega) ha hb result]
  simp [sub16, Flags.withResult16, zero, fits16, signed16_eq, DifferenceFits]

/-! ### Mnemonics -/

namespace Instruction

/-- The comparisons of a byte. -/
def byteComparisons : List (String × Accumulator) := [("CMPA", .a), ("CMPB", .b)]

/-- The comparisons of a word. -/
def wordComparisons : List (String × RegisterName) :=
  [("CMPD", .d), ("CMPX", .x), ("CMPY", .y), ("CMPU", .u), ("CMPS", .s)]

/-- The subtractions of a byte that take no borrow. -/
def byteSubtractions : List (String × Accumulator) := [("SUBA", .a), ("SUBB", .b)]

/-- All comparisons and the subtractions that go with them. -/
def comparing : List String :=
  byteComparisons.map (·.1) ++ wordComparisons.map (·.1) ++ byteSubtractions.map (·.1) ++ ["SUBD"]

/-- The short and the long branches that tell how a comparison came out. -/
def orderBranches : List (String × Condition) :=
  [("HI", .hi), ("HS", .hs), ("LO", .lo), ("LS", .ls), ("GT", .gt), ("GE", .ge), ("LT", .lt),
    ("LE", .le), ("EQ", .eq), ("NE", .ne), ("VS", .vs), ("VC", .vc)].flatMap
      fun (letters, condition) => [("B" ++ letters, condition), ("LB" ++ letters, condition)]

/-- What a comparison or a subtraction leaves, given the operand as a byte and as a word and the
registers with the operand located. Afterwards they are `r'`, and branches come out as `decided`
says. -/
structure Compared (row : Instruction) (byte : Byte) (word : Word) (r r' : Registers)
    (decided : Condition → Prop → Prop) : Prop where
  compareByte : ∀ acc, (row.mnemonic, acc) ∈ byteComparisons →
    r' = { r with cc := r.cc.withDifference 8 (acc.get r).toNat byte.toNat } ∧
      DecidesOrder decided 8 (acc.get r).toNat byte.toNat
  compareWord : ∀ name, (row.mnemonic, name) ∈ wordComparisons →
    r' = { r with cc := r.cc.withDifference 16 (r.read name).toNat word.toNat } ∧
      DecidesOrder decided 16 (r.read name).toNat word.toNat
  /-- The codes are those of the comparison. -/
  subtractByte : ∀ acc, (row.mnemonic, acc) ∈ byteSubtractions →
    r' = acc.set (acc.get r - byte)
      { r with cc := r.cc.withDifference 8 (acc.get r).toNat byte.toNat }
  subtractWord : row.mnemonic = "SUBD" →
    r' = { r with cc := r.cc.withDifference 16 r.d.toNat word.toNat }.setD (r.d - word)

/-- The mnemonic says which registers are compared. -/
theorem rows_comparing : ∀ row ∈ OpcodeMap.rows,
    (∀ p ∈ byteComparisons, row.mnemonic = p.1 → row.operation = .binary .cmp p.2) ∧
      (∀ p ∈ wordComparisons, row.mnemonic = p.1 → row.operation = .compareWord p.2) ∧
      (∀ p ∈ byteSubtractions, row.mnemonic = p.1 → row.operation = .binary .sub p.2) ∧
      (row.mnemonic = "SUBD" → row.operation = .subD) ∧
      (row.mnemonic ∈ comparing → row.mode ≠ .invalid) := by
  decide +kernel

/-- The mnemonic says when a branch is taken. -/
theorem rows_ordering : ∀ row ∈ OpcodeMap.rows, ∀ p ∈ orderBranches, row.mnemonic = p.1 →
    row.operation ∈ [.branch p.2, .longBranch p.2] ∧ row.mode ∈ [.rel8, .rel16] ∧
      row.size = opcodeLength row.code + row.mode.operandLength := by
  decide +kernel

end Instruction

end Machine6809
