import Machine6809.Machine.Addressing
import Machine6809.Machine.Perform

/-!
# Ticks and steps

The machine advances one clock cycle at a time. The first tick of an instruction does all of its
work and the others count down its cost. A tick that does work first adopts the writes posted to
the register file, then looks at the interrupt lines, and only then, unless an interrupt was
entered or the processor is waiting, executes the next instruction. At its end the registers are
published, whether the instruction failed or not.

* `Machine.tick` is one cycle,
* `Machine.step` drops what is left of a countdown and does one tick's work,
* `Machine.runUntil` steps until PC is at an address, within a bound on the number of steps.
-/

namespace Machine6809

/-- How a run ended. -/
inductive Outcome where
  /-- It got where it was to go. -/
  | finished
  /-- An instruction could not be executed. -/
  | fault (fault : Fault)
  /-- The bound on the number of steps was reached first. -/
  | outOfFuel
  deriving DecidableEq, Repr, Inhabited

namespace Machine

variable {μ : Type} [Memory μ]

/-! ### Interrupts -/

/-- Push what an interrupt saves: the return state with E clear for FIRQ, else the entire state
with E set. -/
def pushInterruptFrame (source : InterruptSource) : Exec μ Unit := do
  match source with
  | .firq =>
    modifyRegisters fun r => { r with cc := { r.cc with e := false } }
    let _ ← pushFrame .system returnState
  | .nmi | .irq => pushEntireState

/-- The cost of an interrupt that saves its frame. -/
def entryCycles : InterruptSource → Nat
  | .firq => 10
  | .nmi | .irq => 19

/-- The cost of an interrupt whose frame was saved before. -/
def wakeCycles : Nat := 7

/-- Continue at an interrupt's vector. The latch of NMI is cleared, and the other two interrupts
are masked. -/
def enterInterrupt (source : InterruptSource) (stacked : Bool) : Exec μ Unit := do
  note (.interrupt source (← registers).pc)
  if source = .nmi then
    modifyCpu fun cpu => { cpu with lines := { cpu.lines with nmiLatched := false } }
  if !stacked then
    pushInterruptFrame source
  maskInterrupts
  gotoVector source.vector

/-- Look at the interrupt lines. Gives the cycles used if an interrupt was entered. -/
def serviceInterrupts : Exec μ (Option Nat) := do
  let cpu := (← get).cpu
  let accepted := cpu.lines.accepted cpu.registers.cc
  match cpu.wait with
  | .normal =>
    match accepted with
    | some source =>
      enterInterrupt source false
      return some (entryCycles source)
    | none => return none
  | .sync =>
    -- any asserted line ends the wait, masked or not
    if cpu.lines.wakes then
      modifyCpu fun cpu => { cpu with wait := .normal }
      match accepted with
      | some source =>
        enterInterrupt source false
        return some (entryCycles source)
      | none => return none
    else
      return none
  | .cwai =>
    match accepted with
    | some source =>
      modifyCpu fun cpu => { cpu with wait := .normal }
      -- the frame has been on the stack since CWAI
      enterInterrupt source true
      return some wakeCycles
    | none => return none

/-! ### Instructions -/

/-- Fetch an opcode with its prefix, if it has one, and give its bytes too. -/
def fetchOpcode : Exec μ (Word × List Byte) := do
  let first ← fetch
  if first = 0x10 || first = 0x11 then
    let second ← fetch
    return (wordOf first second, [first, second])
  else
    return (first.toUInt16, [first])

/-- Leave a message about a completed instruction, if such messages are wanted. -/
def noteExecuted (start : Word) (mnemonic : String) (bytes : List Byte) : Exec μ Unit :=
  modifyCpu fun cpu => if cpu.tracing then cpu.note (.executed start mnemonic bytes) else cpu

/-- Execute the instruction in a row of the opcode map and give its cost. -/
def executeRow (row : Instruction) (start : Word) (opcodeBytes : List Byte) :
    Exec μ (Except Fault Nat) := do
  match ← resolve row.mode row.code start with
  | .error fault => return .error fault
  | .ok operand =>
    let extra ← perform row.operation operand.address
    noteExecuted start row.mnemonic (opcodeBytes ++ operand.bytes)
    return .ok (row.cycles + operand.cycles + extra)

/-- Execute the instruction at PC and give its cost. Its address counts as visited once its opcode
is known to have a row. -/
def executeNext : Exec μ (Except Fault Nat) := do
  let start := (← registers).pc
  let (opcode, opcodeBytes) ← fetchOpcode
  match OpcodeMap.lookup? opcode with
  | none => return .error (.invalidOpcode opcode start)
  | some row =>
    modifyCpu (·.visit start)
    executeRow row start opcodeBytes

/-! ### Time -/

/-- What a tick does when nothing is left to count down: enter an interrupt, idle for a cycle, or
execute an instruction. -/
def work : Exec μ (Except Fault Nat) := do
  match ← serviceInterrupts with
  | some used => return .ok used
  | none =>
    if (← get).cpu.wait = .normal then executeNext else return .ok 1

/-- Work between the adoption of posted writes and the publication of the registers. -/
def workTick (m : Machine μ) : Except Fault Unit × Machine μ :=
  let ((), m) := (modifyCpu Cpu.adopt).run m
  let (result, m) := work.run m
  let ((), m) := (modifyCpu Cpu.publish).run m
  match result with
  | .error fault => (.error fault, m)
  | .ok used =>
    let charge (cpu : Cpu) : Cpu :=
      { cpu with countdown := used - 1, totalCycles := cpu.totalCycles + used }
    let ((), m) := (modifyCpu charge).run m
    (.ok (), m)

/-- Advance by one clock cycle. -/
def tick (m : Machine μ) : Except Fault Unit × Machine μ :=
  if m.cpu.countdown = 0 then workTick m
  else
    let countDown (cpu : Cpu) : Cpu := { cpu with countdown := cpu.countdown - 1 }
    let ((), m) := (modifyCpu countDown).run m
    (.ok (), m)

/-- Finish what is under way, then execute once and give the cycles used. -/
def step (m : Machine μ) : Except Fault Nat × Machine μ :=
  let before := m.cpu.totalCycles
  let ((), m) := (modifyCpu fun cpu => { cpu with countdown := 0 }).run m
  let (result, m) := tick m
  (result.map fun () => m.cpu.totalCycles - before, m)

/-- Do a number of ticks, up to the first that fails. -/
def ticks : Nat → Machine μ → Except (Fault × Nat) Unit × Machine μ
  | n, m => go 0 n m
where
  /-- The ticks still to be done, after `done` of them. -/
  go (done : Nat) : Nat → Machine μ → Except (Fault × Nat) Unit × Machine μ
    | 0, m => (.ok (), m)
    | n + 1, m =>
      match tick m with
      | (.ok (), m) => go (done + 1) n m
      | (.error fault, m) => (.error (fault, done), m)

/-- Do a number of steps, up to the first that fails. -/
def steps : Nat → Machine μ → Except Fault Unit × Machine μ
  | 0, m => (.ok (), m)
  | n + 1, m =>
    match step m with
    | (.ok _, m) => steps n m
    | (.error fault, m) => (.error fault, m)

/-- Step until PC is at an address, at most `fuel` times. -/
def runUntil (stop : Word) : Nat → Machine μ → Outcome × Machine μ
  | 0, m => (if m.cpu.registers.pc = stop then .finished else .outOfFuel, m)
  | fuel + 1, m =>
    if m.cpu.registers.pc = stop then (.finished, m)
    else
      match step m with
      | (.ok _, m) => runUntil stop fuel m
      | (.error fault, m) => (.fault fault, m)

/-- Reset the processor: PC comes from the reset vector, the interrupts are masked, and NMI stays
off until S is loaded. Writes posted and not adopted are dropped. -/
def reset : Exec μ Unit := do
  modifyRegisters fun r => { r with dp := 0, cc := { r.cc with i := true, f := true } }
  gotoVector VectorAddress.reset
  modifyCpu fun cpu =>
    { cpu with
      lines := InterruptLines.released
      wait := .normal
      countdown := 0
      file := cpu.file.take.2 }
  modifyCpu Cpu.publish

end Machine

end Machine6809
