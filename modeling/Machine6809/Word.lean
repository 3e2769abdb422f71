/-!
# Bytes and words

The machine works on bytes and on 16-bit words; all arithmetic on them wraps. A word in memory
or in a register pair is its high byte followed by its low byte: `wordOf` joins the two and
`highByte`, `lowByte` take it apart again. `signExtend` widens a byte read as two's complement,
and `signed8`, `signed16` give the integer that a byte or a word stands for when it is read so.
-/

namespace Machine6809

/-- A byte of memory or an 8-bit register. -/
abbrev Byte := UInt8

/-- A 16-bit register or an address. -/
abbrev Word := UInt16

/-- The word with the given high and low byte. -/
def wordOf (high low : Byte) : Word := high.toUInt16 * 256 + low.toUInt16

/-- The upper eight bits of a word. -/
def highByte (w : Word) : Byte := (w / 256).toUInt8

/-- The lower eight bits of a word. -/
def lowByte (w : Word) : Byte := w.toUInt8

/-- A byte in two's complement, widened to a word of the same value. -/
def signExtend (b : Byte) : Word := if b < 0x80 then b.toUInt16 else b.toUInt16 + 0xFF00

/-- The integer that a byte stands for in two's complement. -/
def signed8 (b : Byte) : Int := if b < 0x80 then b.toNat else b.toNat - 256

/-- The integer that a word stands for in two's complement. -/
def signed16 (w : Word) : Int := if w < 0x8000 then w.toNat else w.toNat - 65536

/-- An integer has an 8-bit two's complement form. -/
def fits8 (n : Int) : Bool := -128 ≤ n && n < 128

/-- An integer has a 16-bit two's complement form. -/
def fits16 (n : Int) : Bool := -32768 ≤ n && n < 32768

/-- Bit `i` of a byte. -/
def bitOf (b : Byte) (i : Nat) : Bool := b.toNat.testBit i

/-- Two bytes can be taken apart again. -/
@[simp] theorem highByte_wordOf (high low : Byte) : highByte (wordOf high low) = high := by
  apply UInt8.toNat_inj.1
  have := high.toNat_lt
  have := low.toNat_lt
  simp [highByte, wordOf]
  omega

/-- This is the other of the two. -/
@[simp] theorem lowByte_wordOf (high low : Byte) : lowByte (wordOf high low) = low := by
  apply UInt8.toNat_inj.1
  simp [lowByte, wordOf]

/-- A word is made of its two bytes. -/
@[simp] theorem wordOf_highByte_lowByte (w : Word) : wordOf (highByte w) (lowByte w) = w := by
  apply UInt16.toNat_inj.1
  have := w.toNat_lt
  simp [highByte, lowByte, wordOf]
  omega

end Machine6809
