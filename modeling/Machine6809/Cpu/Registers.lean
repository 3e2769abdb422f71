import Machine6809.Cpu.Flags
import Machine6809.Text.Hex

/-!
# The programmer's registers

`Registers` holds the nine registers. D is the pair A:B and no register of its own. A register is
named by `RegisterName`, whose order is that of the transfer codes; `Registers.read` gives the
value of a named register as a word and `Registers.assign` writes one, a byte register taking the
low byte. A change to the registers as a value is a `RegisterWrite`: either a whole register or
a choice of condition codes.
-/

namespace Machine6809

/-- The contents of the programmer's registers. -/
structure Registers where
  /-- Accumulator A, the high byte of D. -/
  a : Byte
  /-- Accumulator B, the low byte of D. -/
  b : Byte
  /-- Index register X. -/
  x : Word
  /-- Index register Y. -/
  y : Word
  /-- User stack pointer. -/
  u : Word
  /-- System stack pointer. -/
  s : Word
  /-- Program counter. -/
  pc : Word
  /-- Direct page: the high byte of direct addresses. -/
  dp : Byte
  /-- Condition codes. -/
  cc : Flags
  deriving DecidableEq, Repr, Inhabited

/-- The names of the registers a program can read and write as a whole. -/
inductive RegisterName where
  | d | x | y | u | s | pc | a | b | cc | dp
  deriving DecidableEq, Repr, Inhabited

/-- The name stands for an 8-bit register. -/
def RegisterName.isByte : RegisterName → Bool
  | .a | .b | .cc | .dp => true
  | .d | .x | .y | .u | .s | .pc => false

/-- A change to the registers. -/
inductive RegisterWrite where
  /-- Write a whole register; a byte register takes the low byte. -/
  | whole (name : RegisterName) (value : Word)
  /-- Set or clear the selected condition codes. -/
  | codes (mask : Flags) (on : Bool)
  deriving DecidableEq, Repr

namespace Registers

/-- All registers zero. -/
def zero : Registers :=
  { a := 0, b := 0, x := 0, y := 0, u := 0, s := 0, pc := 0, dp := 0, cc := Flags.none }

/-- The accumulator pair A:B. -/
def d (r : Registers) : Word := wordOf r.a r.b

/-- Write the accumulator pair. -/
def setD (r : Registers) (value : Word) : Registers :=
  { r with a := highByte value, b := lowByte value }

/-- The value of a register, a byte register with a zero high byte. -/
def read (r : Registers) : RegisterName → Word
  | .d => r.d
  | .x => r.x
  | .y => r.y
  | .u => r.u
  | .s => r.s
  | .pc => r.pc
  | .a => r.a.toUInt16
  | .b => r.b.toUInt16
  | .cc => r.cc.toByte.toUInt16
  | .dp => r.dp.toUInt16

/-- Write a register; a byte register takes the low byte. -/
def assign (r : Registers) (name : RegisterName) (value : Word) : Registers :=
  match name with
  | .d => r.setD value
  | .x => { r with x := value }
  | .y => { r with y := value }
  | .u => { r with u := value }
  | .s => { r with s := value }
  | .pc => { r with pc := value }
  | .a => { r with a := lowByte value }
  | .b => { r with b := lowByte value }
  | .cc => { r with cc := Flags.ofByte (lowByte value) }
  | .dp => { r with dp := lowByte value }

/-- Carry out one change. -/
def write (r : Registers) : RegisterWrite → Registers
  | .whole name value => r.assign name value
  | .codes mask on => { r with cc := r.cc.assign mask on }

/-- The registers on one line, the letters of the codes that are set in parentheses. -/
def text (r : Registers) : String :=
  s!"A={hexByte r.a} B={hexByte r.b} X={hexWord r.x} Y={hexWord r.y} U={hexWord r.u} "
    ++ s!"S={hexWord r.s} PC={hexWord r.pc} DP={hexByte r.dp} CC={hexByte r.cc.toByte} "
    ++ s!"({r.cc.letters})"

end Registers

end Machine6809
