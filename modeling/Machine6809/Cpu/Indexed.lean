import Machine6809.Cpu.Registers

/-!
# Indexed postbytes

An indexed operand begins with a postbyte that names a register and a way to form an address from
it (`IndexedForm`), and says whether the address so formed holds the operand's address instead
of the operand. `IndexedOperand.decode?` reads the postbyte and knows nothing of registers or
memory. Four postbytes in sixteen have no meaning without indirection, and the automatic steps by
one have none with it.
-/

namespace Machine6809

/-- How an address is formed from an index register. -/
inductive IndexedForm where
  /-- The register plus an offset that is part of the postbyte. -/
  | shortOffset (offset : Word)
  /-- The register, which moves up afterwards. -/
  | postIncrement (step : Word)
  /-- The register, which moves down before. -/
  | preDecrement (step : Word)
  /-- The register as it is. -/
  | plain
  /-- The register plus an accumulator, A and B taken as signed. -/
  | accumulatorOffset (name : RegisterName)
  /-- The register plus a signed byte that follows the postbyte. -/
  | byteOffset
  /-- The register plus a word that follows the postbyte. -/
  | wordOffset
  /-- PC after the operand plus a signed byte that follows the postbyte. -/
  | pcByteOffset
  /-- PC after the operand plus a word that follows the postbyte. -/
  | pcWordOffset
  /-- The word that follows the postbyte. -/
  | address
  deriving DecidableEq, Repr, Inhabited

/-- The bytes that follow the postbyte. -/
def IndexedForm.length : IndexedForm → Nat
  | .byteOffset | .pcByteOffset => 1
  | .wordOffset | .pcWordOffset | .address => 2
  | _ => 0

/-- The cycles that forming the address adds. -/
def IndexedForm.cycles : IndexedForm → Nat
  | .shortOffset _ => 1
  | .postIncrement step => if step = 1 then 2 else 3
  | .preDecrement step => if step = 1 then 2 else 3
  | .plain => 0
  | .accumulatorOffset name => if name = .d then 4 else 1
  | .byteOffset => 1
  | .wordOffset => 4
  | .pcByteOffset => 1
  | .pcWordOffset => 5
  | .address => 2

/-- The reading of a postbyte. -/
structure IndexedOperand where
  /-- The index register. -/
  base : RegisterName
  /-- How the address is formed. -/
  form : IndexedForm
  /-- The address so formed holds the operand's address. -/
  indirect : Bool
  deriving DecidableEq, Repr, Inhabited

namespace IndexedOperand

/-- The cycles that an indexed operand adds to its instruction. -/
def cycles (operand : IndexedOperand) : Nat :=
  operand.form.cycles + if operand.indirect then 3 else 0

/-- The index register in bits 6 and 5 of a postbyte. -/
def baseOf (postbyte : Byte) : RegisterName :=
  match postbyte.toNat / 32 % 4 with
  | 0 => .x
  | 1 => .y
  | 2 => .u
  | _ => .s

/-- The low five bits of a postbyte as a signed offset. -/
def shortOffsetOf (postbyte : Byte) : Word :=
  let n := postbyte.toNat % 32
  UInt16.ofNat (if n < 16 then n else n + 0xFFE0)

/-- The form that the low nibble of a postbyte stands for. -/
def formOf? (nibble : Nat) (indirect : Bool) : Option IndexedForm :=
  match nibble with
  -- only steps of two can be indirect
  | 0x0 => if indirect then none else some (.postIncrement 1)
  | 0x1 => some (.postIncrement 2)
  | 0x2 => if indirect then none else some (.preDecrement 1)
  | 0x3 => some (.preDecrement 2)
  | 0x4 => some .plain
  | 0x5 => some (.accumulatorOffset .b)
  | 0x6 => some (.accumulatorOffset .a)
  | 0x8 => some .byteOffset
  | 0x9 => some .wordOffset
  | 0xB => some (.accumulatorOffset .d)
  | 0xC => some .pcByteOffset
  | 0xD => some .pcWordOffset
  | 0xF => if indirect then some .address else none
  | _ => none

/-- Read a postbyte; `none` if it has no meaning. -/
def decode? (postbyte : Byte) : Option IndexedOperand :=
  if bitOf postbyte 7 then
    let indirect := bitOf postbyte 4
    (formOf? (postbyte.toNat % 16) indirect).map fun form =>
      { base := baseOf postbyte, form, indirect }
  else
    some
      { base := baseOf postbyte
        form := .shortOffset (shortOffsetOf postbyte)
        indirect := false }

end IndexedOperand

end Machine6809
