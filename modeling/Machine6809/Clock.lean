import Machine6809.Text.Rounded

/-!
# The clock

The clock has sixteen speed levels; the last one does not limit the speed at all. How many
cycles are due at a moment depends on the time of day, except at the last level, where the clock
always hands out the same number.
-/

namespace Machine6809

/-- The number of speed levels. -/
def speedLevels : Nat := 16

/-- The cycles per second of each level, `none` for no limit. -/
def speeds : Vector (Option Nat) speedLevels :=
  #v[some 25000, some 50000, some 100000, some 150000, some 250000, some 500000, some 750000,
    some 1000000, some 1500000, some 2000000, some 3000000, some 4000000, some 5000000,
    some 8000000, some 10000000, none]

/-- The cycles handed out at a time without a limit. -/
def unlimitedBatch : Nat := 10000

/-- A speed in words: whole megahertz as they are, others with one place, less in kilohertz. -/
def describeSpeed : Option Nat → String
  | none => "unmetered"
  | some hz =>
    if hz < 1000000 then s!"{hz / 1000}kHz"
    else if hz % 1000000 = 0 then s!"{hz / 1000000}MHz"
    else s!"{oneDecimal hz 1000000}MHz"

/-- A clock set to a speed level. -/
structure Clock where
  level : Fin speedLevels
  deriving DecidableEq, Repr

namespace Clock

/-- A clock at one megahertz. -/
def initial : Clock := { level := ⟨7, by decide⟩ }

/-- The speed of the clock. -/
def speed (clock : Clock) : Option Nat := speeds[clock.level]

/-- The clock at another level, if that exists. -/
def setLevel? (_clock : Clock) (level : Nat) : Option Clock :=
  if h : level < speedLevels then some { level := ⟨level, h⟩ } else none

end Clock

end Machine6809
