import Machine6809.Clock
import Machine6809.HexImage.Load
import Machine6809.Machine.Tick

/-!
# The board

The board is the whole computer: the processor, a bus with a fixed set of devices, the memory
management unit, a clock, and a flag that says whether it is running.

| addresses | device |
|---|---|
| `0000`–`000F` | soft vectors, RAM |
| `0010`–`03FF` | system RAM |
| `0400`–`23FF` | video RAM |
| `2400`–`AFFF` | user RAM |
| `B000`–`EFFF` | windows |
| `F000`–`FDFF` | ROM |
| `FE00`–`FE3F` | registers of the memory management unit |
| `FE40`–`FFEF` | hardware registers, RAM |
| `FFF0`–`FFFF` | vectors, ROM |

A fault of the processor clears the running flag, and nothing that runs the board does anything
while the flag is clear. Resetting the board sets it again.
-/

namespace Machine6809

/-- The computer. -/
structure Board where
  machine : Machine Bus
  clock : Clock
  running : Bool

namespace Board

/-! ### Making a board -/

/-- RAM of zero bytes. -/
def ramOf (name : String) (size : Nat) : Device := .ram name (Array.replicate size 0)

/-- ROM that has not been written yet. -/
def romOf (name : String) (size : Nat) : Device := .rom name (Array.replicate size 0xFF)

/-- The devices in the order of their addresses. -/
def devices : List Device :=
  [ramOf "soft vectors" 0x0010, ramOf "system ram" 0x03F0, ramOf "video" 0x2000,
    ramOf "user ram" 0x8C00, Device.blankWindows, romOf "rom" 0x0E00, .registers,
    ramOf "hardware" 0x01B0, romOf "vectors" 0x0010]

/-- The bus with all devices attached. -/
def initialBus : Bus :=
  (devices.foldl (fun bus device => (bus.attach device).2) Bus.empty).signal .init

/-- A board that has just been made. It is running, but not reset. -/
def initial : Board :=
  { machine := { cpu := { Cpu.initial with visited := some VisitedMap.empty },
                 memory := initialBus }
    clock := Clock.initial
    running := true }

/-! ### Parts and messages -/

/-- Leave a message. -/
def note (board : Board) (message : Message) : Board :=
  { board with
    machine := { board.machine with cpu := board.machine.cpu.note message } }

/-- Act on the machine. -/
@[inline] def onMachine {α : Type} (board : Board) (f : Machine Bus → α × Machine Bus) :
    α × Board :=
  match board with
  | { machine, clock, running } =>
    let (a, machine) := f machine
    (a, { machine, clock, running })

/-- Act on the bus. Its messages go to the processor's journal. -/
@[inline] def onBus {α : Type} (board : Board) (f : Bus → α × Bus) : α × Board :=
  board.onMachine fun
    | { cpu, memory } =>
      let (a, bus) := f memory
      let (messages, bus) := bus.drain
      (a, { cpu := { cpu with journal := cpu.journal ++ messages }, memory := bus })

/-- Tell every device about an event. -/
def signal (board : Board) (event : BusEvent) : Board :=
  (board.onBus fun bus => ((), bus.signal event)).2

/-- Load an image. -/
def loadImage (board : Board) (text : String) : Except Error Image × Board :=
  board.onBus (·.loadImage text)

/-- Select a speed level, and say whether it exists. -/
def setSpeed (board : Board) (level : Nat) : Bool × Board :=
  match board.clock.setLevel? level with
  | some clock => (true, { board with clock }.note (.clockSpeed (describeSpeed clock.speed)))
  | none => (false, board)

/-! ### Running -/

/-- Reset the devices and then the processor, and start. -/
def reset (board : Board) : Board :=
  let board := board.signal .reset
  let ((), board) := board.onMachine fun m => Machine.reset.run m
  let pc := board.machine.cpu.registers.pc
  { board with running := true }.note (.boardReset pc)

/-- Stop after a fault and show the registers. -/
def stopAtFault (board : Board) : Board :=
  { board with
    running := false
    machine := { board.machine with cpu := board.machine.cpu.dump } }

/-- Execute one instruction and give its cycles. -/
def step (board : Board) : Except Fault Nat × Board :=
  match board.onMachine Machine.step with
  | (.ok used, board) => (.ok used, board)
  | (.error fault, board) => (.error fault, board.stopAtFault)

/-- Step until PC is at an address or the board stops, at most `fuel` times. -/
def runUntil (stop : Word) : (fuel : Nat) → Board → Outcome × Board
  | 0, board =>
    if !board.running || board.machine.cpu.registers.pc = stop then (.finished, board)
    else (.outOfFuel, board)
  | fuel + 1, board =>
    if !board.running || board.machine.cpu.registers.pc = stop then (.finished, board)
    else
      match board.step with
      | (.ok _, board) => runUntil stop fuel board
      | (.error fault, board) => (.fault fault, board)

/-- Execute a number of instructions, or fewer if the board stops. -/
def runSteps : Nat → Board → Except Fault Unit × Board
  | 0, board => (.ok (), board)
  | n + 1, board =>
    if !board.running then (.ok (), board)
    else
      match board.step with
      | (.ok _, board) => runSteps n board
      | (.error fault, board) => (.error fault, board)

/-- Do a number of ticks. After a fault the board stops. -/
def runBatch (n : Nat) (board : Board) : Except Fault Unit × Board :=
  match board.onMachine (Machine.ticks n) with
  | (.ok (), board) => (.ok (), board)
  | (.error (fault, _), board) => (.error fault, board.stopAtFault)

/-- Do batches of ticks while the board runs, at most `fuel` of them, starting with batch number
`k`. The clock hands out `due k` ticks for it. -/
def runBatches (due : Nat → Nat) : (fuel k : Nat) → Board → Outcome × Board
  | 0, _, board => (if board.running then .outOfFuel else .finished, board)
  | fuel + 1, k, board =>
    if !board.running then (.finished, board)
    else
      match board.runBatch (due k) with
      | (.ok (), board) => runBatches due fuel (k + 1) board
      | (.error fault, board) => (.fault fault, board)

/-- Run with the devices active until the board stops. -/
def run (due : Nat → Nat) (fuel : Nat) (board : Board) : Outcome × Board :=
  let (outcome, board) := runBatches due fuel 0 (board.signal .activate)
  (outcome, board.signal .deactivate)

/-- Switch the board off. -/
def quit (board : Board) : Board :=
  let board := { board with running := false }.signal .quit
  let pool := board.machine.memory.mmu.pool
  board.note (.poolUsage (UInt16.ofNat pool.freeCount) (UInt16.ofNat pool.allocatedCount)
    (UInt16.ofNat pool.breakCount))

end Board

end Machine6809
