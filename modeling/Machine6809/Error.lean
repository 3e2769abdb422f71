import Machine6809.Cpu.State
import Machine6809.HexImage.Record
import Machine6809.Text.Number

/-!
# Errors

What can go wrong on the board or while it is set up. A fault of the processor is one of them;
some errors have a cause of their own, which `Error.cause?` gives in words.
-/

namespace Machine6809

/-- An error of the machine. -/
inductive Error where
  /-- A file could not be read. -/
  | io (text : String)
  /-- A number could not be read. -/
  | number (error : NumberError)
  /-- A line of an image is no record. -/
  | record (error : RecordError)
  /-- A record goes beyond the last address. -/
  | outsideMemory (address : Nat)
  /-- An instruction could not be executed. -/
  | fault (fault : Fault)
  /-- A device asked for no address at all. -/
  | zeroSizeDevice (name : String) (base : Nat)
  /-- A device asked for more addresses than are left. -/
  | spaceExhausted (name : String) (base size : Nat)
  deriving DecidableEq, Repr, Inhabited

namespace Error

/-- The processor raised the error. -/
def isFault : Error → Bool
  | .fault _ => true
  | _ => false

/-- The error that lies behind this one, in words. -/
def cause? : Error → Option String
  | .io text => some text
  | .number error => some error.message
  | .record error => some error.message
  | _ => none

/-- The error in words. -/
def message : Error → String
  | .io text => s!"IO error: {text}"
  | .number error => s!"Invalid number: {error.message}"
  | .record error => s!"Invalid HEX record: {error.message}"
  | .outsideMemory address => s!"HEX record address {hex 1 address} outside of memory"
  | .fault f => f.message
  | .zeroSizeDevice name base => s!"Device {quoted name} at {hex 4 base} reserved no memory"
  | .spaceExhausted name base size =>
    s!"Device {quoted name} ({size} bytes at {hex 4 base}) exceeds 64K"

end Error

end Machine6809
