import Machine6809.Bus.Event
import Machine6809.Cpu.Interrupt
import Machine6809.Cpu.Registers
import Machine6809.Mmu.Code

/-!
# The journal

Every part of the machine can leave messages about what it does. A `Message` is data, one
constructor for each kind of event; `Message.text` writes it out and `Message.level` says how
much it matters. A `Journal` is the list of messages in the order in which they were left.
Messages never influence the machine.
-/

namespace Machine6809

/-- How much a message matters. -/
inductive Level where
  | trace | debug | info | warn
  deriving DecidableEq, Repr, Inhabited

/-- The word that stands before a message of this level. -/
def Level.name : Level → String
  | .trace => "TRACE"
  | .debug => "DEBUG"
  | .info => "INFO"
  | .warn => "WARN"

/-- An event worth a message. -/
inductive Message where
  /-- An instruction completed: its address, its mnemonic and the bytes it was fetched from. -/
  | executed (pc : Word) (mnemonic : String) (bytes : List Byte)
  /-- The registers on request or after a fault. -/
  | registers (r : Registers)
  /-- An interrupt was entered. -/
  | interrupt (source : InterruptSource) (pc : Word)
  /-- A transfer named a register that does not exist. -/
  | transferIgnored (code : Nat)
  /-- A device was given a range of addresses. -/
  | attached (name : String) (first last : Nat)
  /-- A debugger's write to a ROM was refused. -/
  | debugWriteRefused (address : Word)
  /-- A processor's write to a ROM was ignored. -/
  | romWriteIgnored (name : String) (value : Byte) (address : Word)
  /-- A probe saw a call of the bus. -/
  | probe (name : String) (event : ProbeEvent)
  /-- A byte of an image fell where no device is. -/
  | nothingBehind (address : Word)
  /-- An image was loaded. -/
  | imageLoaded (bytes : Nat)
  /-- The clock changed its speed. -/
  | clockSpeed (description : String)
  /-- The board was reset. -/
  | boardReset (pc : Word)
  /-- The counters of the pool as the board is switched off. -/
  | poolUsage (free allocated fragged : Word)
  /-- A command is about to run. -/
  | commandStarted (command : Command) (arg1 arg2 cursor : Word)
  /-- The error register was set. -/
  | mmuError (error : MmuError)
  /-- An allocation ended early. -/
  | poolExhausted (built wanted : Nat)
  /-- A payload write was refused. -/
  | protectedWrite (node : Word)
  /-- A byte was written to a register that takes none. -/
  | byteIgnored (value : Byte) (offset : Word)
  /-- A word was committed to a register that takes none. -/
  | wordIgnored (value : Word) (offset : Word)
  deriving DecidableEq, Repr

namespace Message

/-- The level of a message. -/
def level : Message → Level
  | .executed .. => .trace
  | .boardReset .. => .info
  | .nothingBehind .. => .warn
  | .mmuError .. => .warn
  | _ => .debug

/-- A text filled with blanks on the right up to a width. -/
def padRight (width : Nat) (s : String) : String :=
  s ++ String.ofList (List.replicate (width - s.length) ' ')

/-- A message in words. -/
def text : Message → String
  | .executed pc mnemonic bytes =>
    s!"*** {hexWord pc} {padRight 6 mnemonic} " ++ String.intercalate " " (bytes.map hexByte)
  | .registers r => s!"*** {hexWord r.pc} REGS  {r.text}"
  | .interrupt source pc => s!"{source.name} taken at {hexWord pc}"
  | .transferIgnored code => s!"transfer to undefined register {hex 1 code} ignored"
  | .attached name first last => s!"attached {name} at {hex 4 first}-{hex 4 last}"
  | .debugWriteRefused address => s!"debug write to ROM at {hexWord address} refused"
  | .romWriteIgnored name value address =>
    s!"{name}: ignored write of {hexByte value} to {hexWord address}"
  | .probe name event => s!"{name}: {event.text}"
  | .nothingBehind address => s!"HEX byte at {hexWord address} has no memory behind it"
  | .imageLoaded bytes => s!"loaded {bytes} bytes from HEX image"
  | .clockSpeed description => s!"clock speed {description}"
  | .boardReset pc => s!"reset, PC={hexWord pc}"
  | .poolUsage free allocated fragged =>
    s!"MMU: {free.toNat} free, {allocated.toNat} allocated, {fragged.toNat} fragged"
  | .commandStarted command arg1 arg2 cursor =>
    s!"MMU command {command.name} ARG_1={hexWord arg1} ARG_2={hexWord arg2} "
      ++ s!"cursor={hexWord cursor}"
  | .mmuError error => s!"MMU error {error.text}"
  | .poolExhausted built wanted => s!"pool exhausted after {built} of {wanted} nodes"
  | .protectedWrite node => s!"MMU: write to protected node {hexWord node} dropped"
  | .byteIgnored value offset =>
    s!"MMU: write {hexByte value} to read-only register {hex 2 offset.toNat} ignored"
  | .wordIgnored value offset =>
    s!"MMU: write {hexWord value} to read-only register {hex 2 offset.toNat} ignored"

/-- A message as a line of a log, its level first. -/
def line (m : Message) : String := s!"{m.level.name} {m.text}"

end Message

/-- Messages in the order in which they were left. -/
abbrev Journal := Array Message

end Machine6809
