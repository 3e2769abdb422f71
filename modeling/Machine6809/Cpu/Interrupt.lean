import Machine6809.Cpu.Flags

/-!
# Interrupt lines

NMI is edge triggered: a line that goes from released to asserted is latched, provided NMI has
been armed by a load of S. FIRQ and IRQ are level sensitive and masked by the codes F and I.
`InterruptLines.accepted` is the source that would be taken now, in the order NMI, FIRQ, IRQ.
-/

namespace Machine6809

/-! ### Vectors

Each of these addresses holds the address at which the processor continues. -/

namespace VectorAddress

/-- The vector of SWI3. -/
def swi3 : Word := 0xFFF2
/-- The vector of SWI2. -/
def swi2 : Word := 0xFFF4
/-- The vector of FIRQ. -/
def firq : Word := 0xFFF6
/-- The vector of IRQ. -/
def irq : Word := 0xFFF8
/-- The vector of SWI. -/
def swi : Word := 0xFFFA
/-- The vector of NMI. -/
def nmi : Word := 0xFFFC
/-- Where a reset finds its start address. -/
def reset : Word := 0xFFFE

end VectorAddress

/-! ### Lines -/

/-- What the processor does between instructions. -/
inductive WaitState where
  /-- Fetch the next instruction. -/
  | normal
  /-- Halted by SYNC until any interrupt line is asserted. -/
  | sync
  /-- Halted by CWAI with the entire state already stacked. -/
  | cwai
  deriving DecidableEq, Repr, Inhabited

/-- A hardware interrupt. -/
inductive InterruptSource where
  | nmi | firq | irq
  deriving DecidableEq, Repr, Inhabited

/-- The name used in messages. -/
def InterruptSource.name : InterruptSource → String
  | .nmi => "Nmi"
  | .firq => "Firq"
  | .irq => "Irq"

/-- The vector an interrupt continues through. -/
def InterruptSource.vector : InterruptSource → Word
  | .nmi => VectorAddress.nmi
  | .firq => VectorAddress.firq
  | .irq => VectorAddress.irq

/-- The interrupt inputs of the processor. -/
structure InterruptLines where
  /-- NMI is asserted. -/
  nmi : Bool
  /-- FIRQ is asserted. -/
  firq : Bool
  /-- IRQ is asserted. -/
  irq : Bool
  /-- An NMI edge has been latched and not been served. -/
  nmiLatched : Bool
  /-- S has been loaded since the last reset, so NMI edges count. -/
  nmiArmed : Bool
  deriving DecidableEq, Repr, Inhabited

namespace InterruptLines

/-- Every line released, nothing latched, NMI not armed. -/
def released : InterruptLines :=
  { nmi := false, firq := false, irq := false, nmiLatched := false, nmiArmed := false }

/-- Drive the NMI line. Going from released to asserted while armed is latched. -/
def driveNmi (lines : InterruptLines) (asserted : Bool) : InterruptLines :=
  { lines with
    nmi := asserted
    nmiLatched := lines.nmiLatched || (asserted && !lines.nmi && lines.nmiArmed) }

/-- The interrupt with the highest priority that can be taken under the masks in `cc`. -/
def accepted (lines : InterruptLines) (cc : Flags) : Option InterruptSource :=
  if lines.nmiLatched && lines.nmiArmed then some .nmi
  else if lines.firq && !cc.f then some .firq
  else if lines.irq && !cc.i then some .irq
  else none

/-- Some line asks for service, masked or not. -/
def wakes (lines : InterruptLines) : Bool := lines.nmiLatched || lines.firq || lines.irq

end InterruptLines

end Machine6809
