import Machine6809.Cpu.Indexed
import Machine6809.Proofs.Cpu.Comparison
import Mathlib.Data.Nat.Notation

/-!
# What a postbyte asks for

The processor reads a postbyte into a form and works on words, which wrap. Here the same is stated
by the bits of the postbyte and in integers: which register bits 6 and 5 name (`indexRegister`), how
many bytes of offset follow (`offsetLength`), and, submode by submode, the cost, the address and how
far the register moves (`Registers.submode`). The two have to agree on all postbytes that have a
meaning (`decode?_spec`), and an integer is brought into the range of a word only at the end.
-/

namespace Machine6809

/-- The index register that bits 6 and 5 of a postbyte name. -/
def indexRegister (postbyte : Byte) : RegisterName :=
  match bitOf postbyte 6, bitOf postbyte 5 with
  | false, false => .x
  | false, true => .y
  | true, false => .u
  | true, true => .s

/-- The bytes of offset or address that follow a postbyte. -/
def offsetLength (postbyte : Byte) : ℕ :=
  if bitOf postbyte 7 then
    match postbyte.toNat % 16 with
    | 0x8 | 0xC => 1
    | 0x9 | 0xD | 0xF => 2
    | _ => 0
  else 0

/-- Bits 7 and 4 of a postbyte ask for the word at the address instead of the address. -/
def isIndirect (postbyte : Byte) : Bool := bitOf postbyte 7 && bitOf postbyte 4

/-- What a postbyte makes of the registers. -/
structure Submode where
  /-- The cycles that the address costs. -/
  cycles : ℕ
  /-- The address before it is taken modulo 2¹⁶. -/
  address : ℤ
  /-- How far the index register moves. -/
  distance : ℤ

/-- The submode of a postbyte, given the registers with PC behind the whole operand and what follows
the postbyte, as a byte and as a word. -/
def Registers.submode (r : Registers) (postbyte byte : Byte) (word : Word) : Submode :=
  let index : ℤ := (r.read (indexRegister postbyte)).toNat
  if bitOf postbyte 7 then
    match postbyte.toNat % 16 with
    | 0x0 => ⟨2, index, 1⟩
    | 0x1 => ⟨3, index, 2⟩
    | 0x2 => ⟨2, index - 1, -1⟩
    | 0x3 => ⟨3, index - 2, -2⟩
    | 0x4 => ⟨0, index, 0⟩
    | 0x5 => ⟨1, index + signed8 r.b, 0⟩
    | 0x6 => ⟨1, index + signed8 r.a, 0⟩
    | 0x8 => ⟨1, index + signed8 byte, 0⟩
    | 0x9 => ⟨4, index + word.toNat, 0⟩
    | 0xB => ⟨4, index + r.d.toNat, 0⟩
    | 0xC => ⟨1, r.pc.toNat + signed8 byte, 0⟩
    | 0xD => ⟨5, r.pc.toNat + word.toNat, 0⟩
    | _ => ⟨2, word.toNat, 0⟩
  else ⟨1, index + signedValue 5 (postbyte.toNat % 32), 0⟩

/-- The registers with one of them moved, modulo 2¹⁶. -/
def Registers.move (r : Registers) (name : RegisterName) (distance : ℤ) : Registers :=
  if distance = 0 then r else r.assign name (UInt16.ofInt ((r.read name).toNat + distance))

/-! ### Integers and words -/

/-- A word is what its number makes. -/
theorem ofInt_toNat (w : Word) : UInt16.ofInt w.toNat = w := by
  apply UInt16.toNat_inj.1
  have := w.toNat_lt
  simp only [UInt16.ofInt, UInt16.toNat_ofNat']
  omega

/-- Sums of numbers wrap as sums of words do. -/
theorem ofInt_toNat_add (w v : Word) : UInt16.ofInt (w.toNat + v.toNat) = w + v := by
  rw [UInt16.ofInt_add, ofInt_toNat, ofInt_toNat]

theorem ofInt_toNat_sub (w v : Word) : UInt16.ofInt (w.toNat - v.toNat) = w - v := by
  apply UInt16.toNat_inj.1
  have := w.toNat_lt
  have := v.toNat_lt
  simp only [UInt16.ofInt, UInt16.toNat_ofNat', UInt16.toNat_sub]
  omega

/-- A signed byte makes the word that it extends to. -/
theorem ofInt_signed8 (b : Byte) : UInt16.ofInt (signed8 b) = signExtend b := by
  have all : ∀ n : Fin 256,
      UInt16.ofInt (signed8 (UInt8.ofFin n)) = signExtend (UInt8.ofFin n) := by decide +kernel
  exact all b.toFin

theorem ofInt_add_signed8 (w : Word) (b : Byte) :
    UInt16.ofInt (w.toNat + signed8 b) = w + signExtend b := by
  rw [UInt16.ofInt_add, ofInt_toNat, ofInt_signed8]

/-- The five bits of a short offset are signed as well. -/
theorem ofInt_add_short (w : Word) (postbyte : Byte) :
    UInt16.ofInt (w.toNat + signedValue 5 (postbyte.toNat % 32))
      = w + IndexedOperand.shortOffsetOf postbyte := by
  have all : ∀ n : Fin 256, UInt16.ofInt (signedValue 5 ((UInt8.ofFin n).toNat % 32))
      = IndexedOperand.shortOffsetOf (UInt8.ofFin n) := by decide +kernel
  rw [UInt16.ofInt_add, ofInt_toNat]
  exact congrArg (w + ·) (all postbyte.toFin)

/-! ### Moves -/

namespace Registers

variable (r : Registers) (name : RegisterName) {step : Word}

/-- A positive step moves an index register up. -/
theorem move_up (h : (step.toNat : ℤ) ≠ 0) :
    r.move name step.toNat = r.assign name (r.read name + step) := by
  rw [move, if_neg h, ofInt_toNat_add]

theorem move_down (h : -(step.toNat : ℤ) ≠ 0) :
    r.move name (-step.toNat) = r.assign name (r.read name - step) := by
  rw [move, if_neg h, ← Int.sub_eq_add_neg, ofInt_toNat_sub]

end Registers

/-! ### Reading a postbyte -/

namespace IndexedOperand

variable {postbyte : Byte} {operand : IndexedOperand}

/-- What a postbyte says of its operand: the register, the indirection and the length. -/
theorem decode?_spec (h : decode? postbyte = some operand) :
    operand.base = indexRegister postbyte ∧ operand.indirect = isIndirect postbyte ∧
      operand.form.length = offsetLength postbyte := by
  have all : ∀ n : Fin 256, ∀ operand ∈ decode? (UInt8.ofFin n),
      operand.base = indexRegister (UInt8.ofFin n) ∧
        operand.indirect = isIndirect (UInt8.ofFin n) ∧
        operand.form.length = offsetLength (UInt8.ofFin n) := by decide +kernel
  exact all postbyte.toFin operand h

/-- The forms by the low nibble of a postbyte with bit 7 set. -/
def forms : List (ℕ × IndexedForm) :=
  [(0x0, .postIncrement 1), (0x1, .postIncrement 2), (0x2, .preDecrement 1),
    (0x3, .preDecrement 2), (0x4, .plain), (0x5, .accumulatorOffset .b),
    (0x6, .accumulatorOffset .a), (0x8, .byteOffset), (0x9, .wordOffset),
    (0xB, .accumulatorOffset .d), (0xC, .pcByteOffset), (0xD, .pcWordOffset), (0xF, .address)]

/-- The forms that a nibble can have are listed. -/
theorem mem_forms {form : IndexedForm} {nibble : ℕ} {indirect : Bool}
    (h : formOf? nibble indirect = some form) : (nibble, form) ∈ forms := by
  unfold formOf? at h
  split at h <;> cases indirect <;> simp_all [forms]

/-- Either the offset is part of the postbyte, or the form is listed for its low nibble. -/
theorem form_of_decode? (h : decode? postbyte = some operand) :
    bitOf postbyte 7 = false ∧ operand.form = .shortOffset (shortOffsetOf postbyte) ∨
      bitOf postbyte 7 = true ∧ (postbyte.toNat % 16, operand.form) ∈ forms := by
  unfold decode? at h
  split at h
  case isTrue top =>
    obtain ⟨form, hform, rfl⟩ := Option.map_eq_some_iff.mp h
    exact .inr ⟨top, mem_forms hform⟩
  case isFalse top =>
    obtain rfl := Option.some.inj h
    exact .inl ⟨Bool.eq_false_iff.mpr top, rfl⟩

end IndexedOperand

end Machine6809
