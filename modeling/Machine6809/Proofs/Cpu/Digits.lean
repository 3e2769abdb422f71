import Machine6809.Proofs.Cpu.Codes
import Machine6809.Proofs.Cpu.Comparison
import Mathlib.Data.Nat.Notation
import Mathlib.Tactic.LinearCombination
import Mathlib.Tactic.Ring

/-!
# Digits and carries

A byte is a digit of a longer number: to the base 256, or, as a packed decimal, to the base 100
(`Numeral`). An addition or subtraction of two digits and a carry gives a digit and a carry, and the
one law behind all of it is that nothing is lost (`Arithmetic.Column`): the result, with the carry
that goes out counted as a whole base, is the sum or difference of what came in. ADC and SBC satisfy
it for binary digits, and ADC followed by DAA for decimal ones.

The codes of a byte operation can be read off the bits of a result that is carried out in a word
(`Arithmetic.wide`): C is the bit above the byte, V a sum of four bits, and H the bit that came into
the high nibble. The arithmetic unit states the same codes on integers (`add8_eq` and
`sub8_borrow_eq`).

The sign of a number is that of its first digit (`signedValue_cons`), so that digit decides whether
the number as a whole fits (`signedFits_cons`).
-/

namespace Machine6809

/-! ### Numerals -/

/-- A way to read bytes as digits. -/
structure Numeral where
  base : ℕ
  one_lt_base : 1 < base
  digit : Byte → ℕ
  /-- The bytes that are digits. -/
  Valid : Byte → Prop
  digit_lt : ∀ {b}, Valid b → digit b < base

namespace Numeral

/-- All bytes are binary digits. -/
def binary : Numeral where
  base := 256
  one_lt_base := by decide
  digit b := b.toNat
  Valid _ := True
  digit_lt _ := UInt8.toNat_lt _

/-- Packed decimals: two decimal digits in a byte, the higher one in the high nibble. -/
def packed : Numeral where
  base := 100
  one_lt_base := by decide
  digit b := 10 * (b.toNat / 16) + b.toNat % 16
  Valid b := b.toNat / 16 ≤ 9 ∧ b.toNat % 16 ≤ 9
  digit_lt := by omega

end Numeral

/-! ### Sums and differences -/

/-- What is done to two numbers and a carry. -/
inductive Arithmetic where
  | sum | difference
  deriving DecidableEq

namespace Arithmetic

/-- The sign with which the second number and the carry count. -/
def sign : Arithmetic → ℤ
  | .sum => 1
  | .difference => -1

/-- The sum, or the difference with the carry as a borrow. -/
def apply (x y : ℤ) (carry : Bool) : Arithmetic → ℤ
  | .sum => x + y + carry.toNat
  | .difference => x - y - carry.toNat

/-- The operation that does it with a byte. -/
def op : Arithmetic → BinaryOp
  | .sum => .adc
  | .difference => .sbc

/-- Sum and difference in one formula. -/
theorem apply_eq (kind : Arithmetic) (x y : ℤ) (carry : Bool) :
    kind.apply x y carry = x + kind.sign * (y + carry.toNat) := by
  cases kind with
  | sum => rw [apply, sign, one_mul, add_assoc]
  | difference => rw [apply, sign, neg_one_mul, neg_add, sub_eq_add_neg, sub_eq_add_neg, add_assoc]

/-- A digit and a carry come of two digits and a carry, and nothing is lost: the carry counts as
much as the base. -/
def Column (kind : Arithmetic) (N : Numeral) (x y : Byte) (carry : Bool) (z : Byte)
    (carry' : Bool) : Prop :=
  N.Valid x → N.Valid y → N.Valid z ∧
    kind.apply (N.digit x) (N.digit y) carry = N.digit z + kind.sign * N.base * carry'.toNat

/-- Numbers with a digit in front: the carry out of the rest goes into the column of the digits. -/
theorem apply_weighted {kind : Arithmetic} {P Q R weight : ℤ} {carry between : Bool}
    (lower : kind.apply P Q carry = R + kind.sign * weight * between.toNat) (x y : ℤ) :
    kind.apply (x * weight + P) (y * weight + Q) carry = kind.apply x y between * weight + R := by
  rw [apply_eq] at lower
  rw [apply_eq, apply_eq]
  linear_combination lower

/-- When nothing is lost, the result is what was to be computed, up to whole weights, and the carry
says whether that has gone out of range. -/
theorem eq_emod_and_carry_iff {kind : Arithmetic} {exact result weight : ℤ} {carry : Bool}
    (h : exact = result + kind.sign * weight * carry.toNat) (low : 0 ≤ result)
    (high : result < weight) :
    result = exact % weight ∧ (carry = true ↔ ¬(0 ≤ exact ∧ exact < weight)) := by
  constructor
  · have turns : exact = result + weight * (kind.sign * carry.toNat) := by
      rw [h]
      ring
    rw [turns, Int.add_mul_emod_self_left, Int.emod_eq_of_lt low high]
  · -- a carry puts the exact value a whole weight above the result, a borrow below it
    cases kind <;> cases carry <;> simp only [sign, Bool.toNat_false, Bool.toNat_true] at h <;>
      simp <;> omega

end Arithmetic

/-- The bit of a decision. -/
theorem toNat_decide (p : Prop) [Decidable p] : (decide p).toNat = if p then 1 else 0 := by
  by_cases h : p <;> simp [h]

/-! ### The codes read off a wider result -/

/-- What is computed from two bytes and a carry in a word, where a difference wraps around below
zero. -/
def Arithmetic.wide (x y : ℕ) (carry : Bool) : Arithmetic → ℕ
  | .sum => x + y + carry.toNat
  | .difference => wideDifference 8 x (y + carry.toNat)

/-- The codes that a sum or a difference of two bytes leaves, read off the bits of the wide result:
C is the bit above the low half, and V the sum of the signs of the operands, the sign of the result
and C. -/
def Flags.withWide (cc : Flags) (x y wide : ℕ) : Flags :=
  { cc.withResult8 (UInt8.ofNat wide) with
    v := (x ^^^ y ^^^ wide ^^^ wide >>> 1).testBit 7
    c := wide.testBit 8 }

namespace Arithmetic

variable {x y : ℕ} (carry : Bool)

/-- A wide difference wraps at a word if there is a borrow. -/
theorem wide_difference (hx : x < 2 ^ 8) (hy : y < 2 ^ 8) :
    difference.wide x y carry
      = if x < y + carry.toNat then 65536 + x - y - carry.toNat else x - y - carry.toNat := by
  have hc := Bool.toNat_le carry
  rw [wide, wideDifference]
  split <;> omega

/-- Bit 8 of the wide result is the carry or the borrow, and the low half is what is left. -/
theorem apply_eq_wide (kind : Arithmetic) (hx : x < 2 ^ 8) (hy : y < 2 ^ 8) :
    kind.apply x y carry = (kind.wide x y carry % 2 ^ 8 : ℕ)
      + kind.sign * 2 ^ 8 * ((kind.wide x y carry).testBit 8).toNat := by
  have hc := Bool.toNat_le carry
  rw [Nat.toNat_testBit]
  cases kind with
  -- the ninth bit is a carry
  | sum =>
    simp only [apply, sign, wide]
    omega
  | difference =>
    -- the ninth bit is a borrow
    rw [wide_difference carry hx hy]
    simp only [apply, sign]
    split_ifs <;> omega

/-- The ninth bit of a sum is set if it does not fit a byte. -/
theorem testBit_wide_sum (hx : x < 2 ^ 8) (hy : y < 2 ^ 8) :
    (sum.wide x y carry).testBit 8 = decide (256 ≤ x + y + carry.toNat) := by
  have hc := Bool.toNat_le carry
  exact testBit_top (show x + y + carry.toNat < 2 ^ 9 by omega)

/-- That of a difference is set if there is a borrow. -/
theorem testBit_wide_difference (hx : x < 2 ^ 8) (hy : y < 2 ^ 8) :
    (difference.wide x y carry).testBit 8 = decide (x < y + carry.toNat) := by
  have hc := Bool.toNat_le carry
  rw [wide_difference carry hx hy, Nat.testBit_eq_decide_div_mod_eq, decide_eq_decide]
  split_ifs <;> omega

/-- V says that the result does not fit in two's complement. -/
theorem v_withWide (kind : Arithmetic) (cc : Flags) (hx : x < 2 ^ 8) (hy : y < 2 ^ 8) :
    (cc.withWide x y (kind.wide x y carry)).v
      = !fits8 (kind.apply (signedValue 8 x) (signedValue 8 y) carry) := by
  have hc := Bool.toNat_le carry
  -- V is the sum of four bits
  have bits : (cc.withWide x y (kind.wide x y carry)).v
      = (x.testBit 7 ^^ y.testBit 7 ^^ (kind.wide x y carry).testBit 7
        ^^ (kind.wide x y carry).testBit 8) := by
    simp [Flags.withWide]
  have fits (n : ℤ) : (!fits8 n) = decide ¬(-128 ≤ n ∧ n < 128) := by
    rw [fits8, ← Bool.decide_and, decide_not]
  rw [bits, fits, testBit_top hx, testBit_top hy]
  simp only [Nat.testBit_eq_decide_div_mod_eq, xor_decide]
  rw [decide_eq_decide, signedValue, signedValue]
  -- with the bits read as comparisons, only linear arithmetic is left
  cases kind with
  | sum =>
    simp only [apply, wide]
    split_ifs <;> omega
  | difference =>
    rw [wide_difference carry hx hy]
    simp only [apply]
    split_ifs <;> omega

/-- The bit that comes into the high nibble is the carry out of the low one. -/
theorem testBit_half (x y : ℕ) :
    (x ^^^ y ^^^ sum.wide x y carry).testBit 4 = decide (16 ≤ x % 16 + y % 16 + carry.toNat) := by
  have hc := Bool.toNat_le carry
  rw [Nat.testBit_xor, Nat.testBit_xor, wide]
  simp only [Nat.testBit_eq_decide_div_mod_eq, xor_decide, decide_eq_decide]
  omega

end Arithmetic

section Wide

variable (x y : Byte) (carry : Bool) (cc : Flags)

/-- The sum of two bytes and its codes, read off the wide sum. -/
theorem add8_eq :
    let wide := Arithmetic.sum.wide x.toNat y.toNat carry
    add8 x y carry cc = (UInt8.ofNat wide,
      { cc.withWide x.toNat y.toNat wide with
        h := (x.toNat ^^^ y.toNat ^^^ wide).testBit 4 }) := by
  intro wide
  -- V and C are read off the wide sum, and H is its fifth bit without the addends
  have overflow := Arithmetic.v_withWide carry .sum cc x.toNat_lt y.toNat_lt
  have full := Arithmetic.testBit_wide_sum carry x.toNat_lt y.toNat_lt
  rw [← signed8_eq, ← signed8_eq] at overflow
  rw [Flags.withWide] at overflow ⊢
  dsimp only at overflow
  rw [overflow, full, Arithmetic.testBit_half]
  rfl

/-- The difference of two bytes with a borrow and its codes, read off the wide difference. -/
theorem sub8_borrow_eq :
    let wide := Arithmetic.difference.wide x.toNat y.toNat carry
    sub8 x y carry cc = (UInt8.ofNat wide, cc.withWide x.toNat y.toNat wide) := by
  intro wide
  -- V and C are read off the wide difference
  have overflow := Arithmetic.v_withWide carry .difference cc x.toNat_lt y.toNat_lt
  have full := Arithmetic.testBit_wide_difference carry x.toNat_lt y.toNat_lt
  rw [← signed8_eq, ← signed8_eq] at overflow
  -- the byte of the wide difference
  have result : x - y - UInt8.ofNat carry.toNat = UInt8.ofNat wide := by
    apply UInt8.toNat_inj.mp
    have hc := Bool.toNat_le carry
    have hx := x.toNat_lt
    have hy := y.toNat_lt
    show _ = (UInt8.ofNat (Arithmetic.difference.wide _ _ _)).toNat
    rw [Arithmetic.wide_difference carry hx hy]
    rw [UInt8.toNat_sub, UInt8.toNat_sub, UInt8.toNat_ofNat', UInt8.toNat_ofNat']
    split_ifs <;> omega
  rw [Flags.withWide] at overflow ⊢
  dsimp only at overflow
  rw [overflow, full, ← result]
  rfl

end Wide

/-! ### What the operations do -/

section Operations

variable (x y : Byte) (cc : Flags)

/-- ADC computes a binary column of a sum. -/
theorem column_adc :
    let result := BinaryOp.adc.apply x y cc
    Arithmetic.sum.Column .binary x y cc.c result.1 result.2.c := by
  intro result _ _
  have codes : result = _ := add8_eq x y cc.c cc
  refine ⟨trivial, ?_⟩
  rw [codes]
  exact Arithmetic.apply_eq_wide cc.c .sum x.toNat_lt y.toNat_lt

/-- SBC computes one of a difference. -/
theorem column_sbc :
    let result := BinaryOp.sbc.apply x y cc
    Arithmetic.difference.Column .binary x y cc.c result.1 result.2.c := by
  intro result _ _
  have codes : result = _ := sub8_borrow_eq x y cc.c cc
  refine ⟨trivial, ?_⟩
  rw [codes]
  exact Arithmetic.apply_eq_wide cc.c .difference x.toNat_lt y.toNat_lt

/-- The adjustment adds six to each digit of the sum that is ten or more, and the carry says that
the higher one was. -/
theorem decimalAdjust_adc (hx : Numeral.packed.Valid x) (hy : Numeral.packed.Valid y) :
    let result := BinaryOp.adc.apply x y cc
    let adjusted := decimalAdjust result.1 result.2
    let low := x.toNat % 16 + y.toNat % 16 + cc.c.toNat
    let high := x.toNat / 16 + y.toNat / 16 + if 10 ≤ low then 1 else 0
    adjusted.1.toNat = (16 * (x.toNat / 16 + y.toNat / 16) + low + (if 10 ≤ low then 0x06 else 0)
        + if 10 ≤ high then 0x60 else 0) % 256 ∧
      adjusted.2.c.toNat = if 10 ≤ high then 1 else 0 := by
  intro result adjusted low high
  obtain ⟨xhigh, xlow⟩ := hx
  obtain ⟨yhigh, ylow⟩ := hy
  have hc := Bool.toNat_le cc.c
  have codes : result = _ := add8_eq x y cc.c cc
  have sum : result.1.toNat = (x.toNat + y.toNat + cc.c.toNat) % 256 := by
    rw [codes]
    exact UInt8.toNat_ofNat'
  -- a digit that has lost a carry does not look like ten or more, which is what H and C are for
  have half : result.2.h = decide (16 ≤ low) := by
    rw [codes]
    exact Arithmetic.testBit_half cc.c x.toNat y.toNat
  have full : result.2.c = decide (256 ≤ x.toNat + y.toNat + cc.c.toNat) := by
    rw [codes]
    exact Arithmetic.testBit_wide_sum cc.c x.toNat_lt y.toNat_lt
  constructor
  · -- the byte: each digit is corrected on its own
    simp only [adjusted, decimalAdjust, UInt8.toNat_ofNat', sum, half, full, low, high,
      Bool.or_eq_true, Bool.and_eq_true, decide_eq_true_eq]
    split_ifs <;> omega
  · -- the carry: DAA never takes back the one of the addition
    have carry : adjusted.2.c = decide (10 ≤ high) := by
      simp only [adjusted, decimalAdjust, sum, half, full, low, high, Bool.or_eq_true,
        Bool.and_eq_true, decide_eq_true_eq, ← Bool.decide_or, decide_eq_decide]
      split_ifs <;> omega
    rw [carry, toNat_decide]

/-- ADC with DAA computes a decimal column of a sum. -/
theorem column_daa :
    let result := BinaryOp.adc.apply x y cc
    let adjusted := decimalAdjust result.1 result.2
    Arithmetic.sum.Column .packed x y cc.c adjusted.1 adjusted.2.c := by
  intro result adjusted hx hy
  obtain ⟨digit, carry⟩ := decimalAdjust_adc x y cc hx hy
  -- two decimal digits each
  obtain ⟨xhigh, xlow⟩ := hx
  obtain ⟨yhigh, ylow⟩ := hy
  have hc := Bool.toNat_le cc.c
  simp only [Arithmetic.apply, Arithmetic.sign, Numeral.packed, result, adjusted, digit, carry]
  split_ifs <;> omega

/-- Either operation computes a column of its kind. -/
theorem column_op (kind : Arithmetic) :
    let result := kind.op.apply x y cc
    kind.Column .binary x y cc.c result.1 result.2.c := by
  cases kind with
  | sum => exact column_adc x y cc
  | difference => exact column_sbc x y cc

/-- N is the sign of the result, and V says that the result would have needed another one. -/
theorem signs_op (kind : Arithmetic) :
    let result := kind.op.apply x y cc
    result.2.n = bitOf result.1 7 ∧
      result.2.v = !fits8 (kind.apply (signed8 x) (signed8 y) cc.c) := by
  have overflow := Arithmetic.v_withWide cc.c kind cc x.toNat_lt y.toNat_lt
  rw [← signed8_eq, ← signed8_eq] at overflow
  cases kind with
  | sum =>
    intro result
    have codes : result = _ := add8_eq x y cc.c cc
    rw [codes]
    exact ⟨rfl, overflow⟩
  | difference =>
    intro result
    have codes : result = _ := sub8_borrow_eq x y cc.c cc
    rw [codes]
    exact ⟨rfl, overflow⟩

end Operations

/-! ### Signed numbers of several bytes -/

/-- The integer has a form in two's complement of `w` bits. -/
def SignedFits (w : ℕ) (x : ℤ) : Prop := -2 ^ (w - 1) ≤ x ∧ x < 2 ^ (w - 1)

instance (w : ℕ) (x : ℤ) : Decidable (SignedFits w x) := inferInstanceAs (Decidable (_ ∧ _))

section Signed

variable {n rest : ℕ}

/-- A byte in front takes eight bits more, the first of which is the sign. -/
theorem two_pow_sign (n : ℕ) : 2 ^ (8 * (n + 1) - 1) = 128 * 256 ^ n := by
  have bits : 8 * (n + 1) - 1 = 7 + 8 * n := by omega
  rw [bits, pow_add, pow_mul, show 2 ^ 8 = 256 from rfl, show 2 ^ 7 = 128 from rfl]

/-- The weight of a byte more. -/
theorem two_pow_bytes (n : ℕ) : 2 ^ (8 * (n + 1)) = 256 * 256 ^ n := by
  rw [pow_mul, pow_succ, Nat.mul_comm, show 2 ^ 8 = 256 from rfl]

/-- What comes after the first byte makes no difference to where the number lies between multiples
of the byte's weight. -/
theorem cons_lt_iff (t b : ℤ) (h : rest < 256 ^ n) :
    t * 256 ^ n + rest < b * 256 ^ n ↔ t < b := by
  have weight : (0 : ℤ) < 256 ^ n := pow_pos (by norm_num) n
  have below : (rest : ℤ) < 256 ^ n := mod_cast h
  rw [← Int.ediv_lt_iff_lt_mul weight, Int.add_comm, Int.add_mul_ediv_right _ _ weight.ne',
    Int.ediv_eq_zero_of_lt (Int.natCast_nonneg rest) below, Int.zero_add]

/-- The sign of a number is that of its first byte. -/
theorem signedValue_cons (x : Byte) (h : rest < 256 ^ n) :
    signedValue (8 * (n + 1)) (x.toNat * 256 ^ n + rest) = signed8 x * 256 ^ n + rest := by
  have first := cons_lt_iff x.toNat 128 h
  have whole : (2 : ℤ) ^ (8 * (n + 1)) = 256 * 256 ^ n := mod_cast two_pow_bytes n
  rw [signed8_eq, signedValue, signedValue, two_pow_sign, whole]
  have sign : x.toNat * 256 ^ n + rest < 128 * 256 ^ n ↔ x.toNat < 2 ^ (8 - 1) := mod_cast first
  -- the two readings turn negative together, and what they then take off is the same
  simp only [sign]
  split_ifs
  · push_cast
    ring
  · push_cast
    ring

/-- The first byte decides whether a number fits. -/
theorem signedFits_cons (t : ℤ) (h : rest < 256 ^ n) :
    SignedFits (8 * (n + 1)) (t * 256 ^ n + rest) ↔ fits8 t = true := by
  have half : (2 : ℤ) ^ (8 * (n + 1) - 1) = 128 * 256 ^ n := mod_cast two_pow_sign n
  have upper := cons_lt_iff t 128 h
  have lower := not_congr (cons_lt_iff t (-128) h)
  rw [SignedFits, half, ← Int.neg_mul, ← not_lt, lower, upper, not_lt]
  simp [fits8]

/-- The first bit is that of the first byte. -/
theorem testBit_cons (z : Byte) (h : rest < 256 ^ n) :
    (z.toNat * 256 ^ n + rest).testBit (8 * (n + 1) - 1) = bitOf z 7 := by
  have bits : 8 * (n + 1) - 1 = 7 + 8 * n := by omega
  have weight : 256 ^ n = 2 ^ (8 * n) := (pow_mul 2 8 n).symm
  rw [weight] at h ⊢
  rw [bits, bitOf, Nat.mul_comm, Nat.testBit_two_pow_mul_add z.toNat h, if_neg (by omega),
    Nat.add_sub_cancel]

end Signed

/-! ### Mnemonics -/

/-- The letter of an accumulator in a mnemonic. -/
def Accumulator.letter : Accumulator → String
  | .a => "A"
  | .b => "B"

/-- What the mnemonics of an operation have in common. -/
def Arithmetic.stem : Arithmetic → String
  | .sum => "ADC"
  | .difference => "SBC"

namespace Instruction

/-- The instructions that a loop over the bytes of a number is made of besides: they move pointers,
count, load, store and branch. -/
def bystanders : List String :=
  ["LEAX", "LEAY", "LEAS", "LEAU", "INC", "INCA", "INCB", "DEC", "DECA", "DECB"]
    ++ ["A", "B", "D", "X", "Y", "U", "S"].flatMap (fun name => ["LD" ++ name, "ST" ++ name])
    ++ branches

/-- What the rows do that a column is computed with. -/
theorem rows_columns : ∀ row ∈ OpcodeMap.rows,
    (∀ acc ∈ [Accumulator.a, .b],
      (row.mnemonic = "LD" ++ acc.letter → row.operation = .binary .load acc) ∧
        (∀ kind ∈ [Arithmetic.sum, .difference],
          row.mnemonic = kind.stem ++ acc.letter → row.operation = .binary kind.op acc) ∧
        (row.mnemonic = "ST" ++ acc.letter → row.operation = .store acc)) ∧
      (row.mnemonic = "DAA" → row.operation = .daa) := by
  decide +kernel

/-- The mnemonic says what an instruction does with an accumulator. -/
theorem operation_of_mnemonic {row : Instruction} (hrow : row ∈ OpcodeMap.rows)
    (acc : Accumulator) :
    (row.mnemonic = "LD" ++ acc.letter → row.operation = .binary .load acc) ∧
      (∀ kind : Arithmetic, row.mnemonic = kind.stem ++ acc.letter →
        row.operation = .binary kind.op acc) ∧
      (row.mnemonic = "ST" ++ acc.letter → row.operation = .store acc) := by
  obtain ⟨load, combine, store⟩ := (rows_columns row hrow).1 acc (by cases acc <;> simp)
  exact ⟨load, fun kind => combine kind (by cases kind <;> simp), store⟩

/-- None of them changes the carry. -/
theorem carry_of_bystander {row : Instruction} {operand : Byte} {cc cc' : Flags}
    (h : row.mnemonic ∈ bystanders) (framed : row.CodesFramed operand cc cc') : cc'.c = cc.c := by
  have others : ∀ name ∈ bystanders, name ∉ codeWriters ∧ name ≠ "TFR" ∧ name ≠ "EXG" ∧
      name ∉ ["PULS", "PULU"] ∧ name ∉ byteSums ++ differences ++ shifts ++ ["MUL", "DAA"] := by
    decide +kernel
  obtain ⟨writer, transfer, exchange, pull, sum⟩ := others _ h
  refine framed.carry ?_ sum
  rintro (h | ⟨h, -⟩ | ⟨h, -⟩ | ⟨h, -⟩)
  exacts [writer h, transfer h, exchange h, pull h]

end Instruction

end Machine6809
