import Machine6809.Cpu.Flags

/-!
# Arithmetic and logic

The operations that combine an accumulator with an operand (`BinaryOp`) and those that change one
byte (`UnaryOp`). Each takes the condition codes as they were and gives the result together with
the new codes. The codes are stated on numbers, not on bits:

* C after an addition is set when the sum of the unsigned operands does not fit, and after a
  subtraction when the subtrahend, with the borrow, exceeds the minuend;
* V is set when the sum or difference of the operands as signed numbers does not fit;
* H, which only 8-bit additions touch, is set when the sum of the low nibbles does not fit;
* N is the top bit of the result and Z says that the result is zero.
-/

namespace Machine6809

/-! ### The sign and zero codes -/

/-- Set N and Z from a byte. -/
def Flags.withResult8 (cc : Flags) (r : Byte) : Flags := { cc with n := bitOf r 7, z := r == 0 }

/-- Set N and Z from a word. -/
def Flags.withResult16 (cc : Flags) (r : Word) : Flags :=
  { cc with n := r.toNat.testBit 15, z := r == 0 }

/-- Set N and Z from a byte and clear V, as the logical operations and the moves do. -/
def Flags.withLogic8 (cc : Flags) (r : Byte) : Flags := { cc.withResult8 r with v := false }

/-- Set N and Z from a word and clear V. -/
def Flags.withLogic16 (cc : Flags) (r : Word) : Flags := { cc.withResult16 r with v := false }

/-! ### Sums and differences -/

/-- Add two bytes and a carry. -/
def add8 (a b : Byte) (carry : Bool) (cc : Flags) : Byte × Flags :=
  let sum := a.toNat + b.toNat + carry.toNat
  let r := UInt8.ofNat sum
  (r, { cc.withResult8 r with
    h := 16 ≤ a.toNat % 16 + b.toNat % 16 + carry.toNat
    v := !fits8 (signed8 a + signed8 b + carry.toNat)
    c := 256 ≤ sum })

/-- Subtract a byte and a borrow from a byte. H is left alone. -/
def sub8 (a b : Byte) (borrow : Bool) (cc : Flags) : Byte × Flags :=
  let r := a - b - UInt8.ofNat borrow.toNat
  (r, { cc.withResult8 r with
    v := !fits8 (signed8 a - signed8 b - borrow.toNat)
    c := a.toNat < b.toNat + borrow.toNat })

/-- Add two words. -/
def add16 (a b : Word) (cc : Flags) : Word × Flags :=
  let r := a + b
  (r, { cc.withResult16 r with
    v := !fits16 (signed16 a + signed16 b)
    c := 65536 ≤ a.toNat + b.toNat })

/-- Subtract a word from a word. -/
def sub16 (a b : Word) (cc : Flags) : Word × Flags :=
  let r := a - b
  (r, { cc.withResult16 r with
    v := !fits16 (signed16 a - signed16 b)
    c := a.toNat < b.toNat })

/-! ### An accumulator and an operand -/

/-- The operations that combine an accumulator with an operand byte. -/
inductive BinaryOp where
  | add
  /-- Add with carry. -/
  | adc
  | sub
  /-- Subtract with borrow. -/
  | sbc
  /-- Compare: subtract and drop the difference. -/
  | cmp
  | and
  /-- Bit test: combine and drop the result. -/
  | bit
  | or
  | eor
  /-- Load: the operand replaces the accumulator. -/
  | load
  deriving DecidableEq, Repr, Inhabited

/-- The value of the accumulator after an operation, and the condition codes. -/
def BinaryOp.apply (op : BinaryOp) (acc operand : Byte) (cc : Flags) : Byte × Flags :=
  match op with
  | .add => add8 acc operand false cc
  | .adc => add8 acc operand cc.c cc
  | .sub => sub8 acc operand false cc
  | .sbc => sub8 acc operand cc.c cc
  | .cmp => (acc, (sub8 acc operand false cc).2)
  | .and => (acc &&& operand, cc.withLogic8 (acc &&& operand))
  | .bit => (acc, cc.withLogic8 (acc &&& operand))
  | .or => (acc ||| operand, cc.withLogic8 (acc ||| operand))
  | .eor => (acc ^^^ operand, cc.withLogic8 (acc ^^^ operand))
  | .load => (operand, cc.withLogic8 operand)

/-! ### One byte -/

/-- The operations that change a byte in place. -/
inductive UnaryOp where
  /-- Negate: subtract from zero. -/
  | neg
  /-- Complement every bit. -/
  | com
  /-- Shift right, a zero comes in. -/
  | lsr
  /-- Rotate right through C. -/
  | ror
  /-- Shift right, the sign stays. -/
  | asr
  /-- Shift left, a zero comes in. -/
  | lsl
  /-- Rotate left through C. -/
  | rol
  | dec
  | inc
  /-- Test: set the codes and leave the byte. -/
  | tst
  | clr
  deriving DecidableEq, Repr, Inhabited

/-- The byte shifted right, `top` coming in at bit 7. C takes the bit that falls out and V stays. -/
def shiftRight (v : Byte) (top : Bool) (cc : Flags) : Byte × Flags :=
  let r := UInt8.ofNat (v.toNat / 2 + 128 * top.toNat)
  (r, { cc.withResult8 r with c := bitOf v 0 })

/-- The byte shifted left, `bottom` coming in at bit 0. C takes the bit that falls out, and V is
set when the sign changes. -/
def shiftLeft (v : Byte) (bottom : Bool) (cc : Flags) : Byte × Flags :=
  let r := UInt8.ofNat (2 * v.toNat + bottom.toNat)
  (r, { cc.withResult8 r with v := bitOf v 7 != bitOf v 6, c := bitOf v 7 })

/-- The byte after an operation, and the condition codes. -/
def UnaryOp.apply (op : UnaryOp) (v : Byte) (cc : Flags) : Byte × Flags :=
  match op with
  | .neg => sub8 0 v false cc
  | .com => (255 - v, { cc.withLogic8 (255 - v) with c := true })
  | .lsr => shiftRight v false cc
  | .ror => shiftRight v cc.c cc
  | .asr => shiftRight v (bitOf v 7) cc
  | .lsl => shiftLeft v false cc
  | .rol => shiftLeft v cc.c cc
  | .dec => (v - 1, { cc.withResult8 (v - 1) with v := v == 0x80 })
  | .inc => (v + 1, { cc.withResult8 (v + 1) with v := v == 0x7F })
  | .tst => (v, cc.withLogic8 v)
  | .clr => (0, { cc.withLogic8 0 with c := false })

/-! ### Decimal adjustment -/

/-- Correct A after the addition of packed decimals. Six is added to the low digit if it exceeds
nine or H is set, and to the high digit if it exceeds nine, if it is nine and the low one exceeds
nine, or if C is set. C stays set and is also set by a carry out of the corrected byte. -/
def decimalAdjust (a : Byte) (cc : Flags) : Byte × Flags :=
  let low := a.toNat % 16
  let high := a.toNat / 16
  let lowFix := if cc.h || 9 < low then 0x06 else 0
  -- the low digit may carry into a nine
  let highFix := if cc.c || 9 < high || (8 < high && 9 < low) then 0x60 else 0
  let sum := a.toNat + lowFix + highFix
  let r := UInt8.ofNat sum
  (r, { cc.withLogic8 r with c := cc.c || 256 ≤ sum })

end Machine6809
