import Machine6809.Board
import Machine6809.CommandLine.Files
import Machine6809.CommandLine.Options
import Machine6809.Mmu.SelfTest

/-!
# The program

`run` is the whole program as a function: from the texts of the files and the arguments to an exit
status and the text written (`Report`). It loads the files into a new board in the order given,
resets it, lets it run, and shows the registers.

A board can run for ever, so `run` takes a bound on the number of steps and gives no report when it
is reached. How long the board is to run is settled before it starts, by an `Extent`.
-/

namespace Machine6809

namespace CommandLine

/-- The version of the program. -/
def version : String := "0.1.0"

/-- What a program leaves behind. -/
structure Report where
  /-- The exit status, zero for success. -/
  status : Nat
  /-- What was written. -/
  output : String
  deriving DecidableEq, Repr, Inhabited

namespace Report

/-- A line that says what went wrong, after the name of the program. -/
def complaint (text : String) : String := s!"sbc09emu: {text}\n"

/-- The program ended well. -/
def success (output : String) : Report := { status := 0, output }

/-- The program failed after it wrote some text. -/
def failure (output text : String) : Report := { status := 1, output := output ++ complaint text }

/-- The command line was wrong. -/
def misuse (error : UsageError) : Report :=
  { status := 1, output := complaint error.message ++ "\n" ++ usage }

end Report

/-! ### The self test -/

/-- The line for the result of a test. -/
def testLine (name : String) (passed : Bool) : String :=
  Message.padRight 12 name ++ " " ++ (if passed then "ok" else "FAILED") ++ "\n"

/-- Report on the tests of all commands; the program fails if one of them does. -/
def selfTest : Report :=
  let results := SelfTest.results (Mmu.initial poolNodes_pos)
  { status := if results.all Prod.snd then 0 else 1
    output := String.join (results.map fun (name, passed) => testLine name passed) }

/-! ### Setting up the board -/

/-- How long the board is to run. -/
inductive Extent where
  /-- Until PC is at an address. -/
  | upTo (stop : Word)
  /-- A number of instructions. -/
  | instructions (n : Nat)
  /-- As long as it can. -/
  | unlimited
  deriving DecidableEq, Repr, Inhabited

/-- The extent for an address at which to stop and a number of instructions. The address comes
first: a number given with it has no effect. -/
def Extent.choose : Option Word → Option Nat → Extent
  | some stop, _ => .upTo stop
  | none, some n => .instructions n
  | none, none => .unlimited

/-- Why a board could not be set up. -/
inductive SetupError where
  /-- A file or a number could not be read, or an image could not be loaded. -/
  | board (error : Error)
  /-- There is no such speed level. -/
  | noSuchSpeed
  deriving DecidableEq, Repr, Inhabited

/-- The error in words. -/
def SetupError.message : SetupError → String
  | .board error => error.message
  | .noSuchSpeed => s!"speed level must be 0-{speedLevels - 1}"

/-- The largest number that can be given in decimal. -/
def largestNumber : Nat := 0xFFFFFFFFFFFFFFFF

/-- The value of a setting as an address, if it is given. -/
def Arguments.address? (arguments : Arguments) (s : Setting) : Except SetupError (Option Word) :=
  match arguments.value? s with
  | none => .ok none
  | some text =>
    match readHexWord text with
    | .ok address => .ok (some address)
    | .error e => .error (.board (.number e))

/-- The value of a setting as a number, if it is given. -/
def Arguments.number? (arguments : Arguments) (s : Setting) : Except SetupError (Option Nat) :=
  match arguments.value? s with
  | none => .ok none
  | some text =>
    match readUnsigned 10 largestNumber text.toList with
    | .ok n => .ok (some n)
    | .error e => .error (.board (.number e))

/-- Load files one after the other, up to the first that fails. -/
def loadFiles (read : String → Except FileError String) : List String → Board →
    Except SetupError Board
  | [], board => .ok board
  | file :: files, board =>
    match read file with
    | .error e => .error (.board (.io e.message))
    | .ok text =>
      match board.loadImage text with
      | (.ok _, board) => loadFiles read files board
      | (.error e, _) => .error (.board e)

/-- Begin at an address instead of the one that the reset vector names. -/
def startAt (board : Board) : Option Word → Board
  | none => board
  | some entry =>
    (board.onMachine fun m => (Machine.goto entry).run m).2

/-- Select a speed level, if one is given. -/
def selectSpeed (board : Board) : Option Nat → Except SetupError Board
  | none => .ok board
  | some level =>
    match board.setSpeed level with
    | (true, board) => .ok board
    | (false, _) => .error .noSuchSpeed

/-- The board before it runs, and how long it is to run. The settings are read in a fixed order
and the first that is wrong decides, but only after all files are loaded. -/
def setUp (read : String → Except FileError String) (arguments : Arguments) :
    Except SetupError (Extent × Board) := do
  let board ← loadFiles read arguments.files Board.initial
  let entry ← arguments.address? .entry
  let level ← arguments.number? .speed
  let board ← selectSpeed (startAt board.reset entry) level
  let steps ← arguments.number? .steps
  let stop ← arguments.address? .stop
  return (.choose stop steps, board)

/-! ### Running -/

/-- Run a board. -/
def Extent.run (fuel : Nat) (board : Board) : Extent → Outcome × Board
  | .upTo stop => board.runUntil stop fuel
  | .instructions n =>
    match board.runSteps n with
    | (.ok (), board) => (.finished, board)
    | (.error fault, board) => (.fault fault, board)
  | .unlimited => board.run (fun _ => unlimitedBatch) fuel

/-- The registers as the last line before the end. -/
def registersLine (board : Board) : String := board.machine.cpu.registers.text ++ "\n"

/-- Set up a board, run it and show its registers. -/
def emulate (read : String → Except FileError String) (fuel : Nat) (arguments : Arguments) :
    Option Report :=
  match setUp read arguments with
  | .error e => some (.failure "" e.message)
  | .ok (extent, board) =>
    match extent.run fuel board with
    | (.finished, board) => some (.success (registersLine board))
    | (.fault fault, board) => some (.failure (registersLine board) fault.message)
    | (.outOfFuel, _) => none

/-- The program. -/
def run (read : String → Except FileError String) (fuel : Nat) (args : List String) :
    Option Report :=
  match Arguments.read args with
  | .error e => some (.misuse e)
  | .ok arguments =>
    if arguments.asks .help then some (.success usage)
    else if arguments.asks .version then some (.success (version ++ "\n"))
    else if arguments.asks .selfTest then some selfTest
    else if arguments.files = [] then some (.misuse .noFiles)
    else emulate read fuel arguments

end CommandLine

end Machine6809
