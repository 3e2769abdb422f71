import Machine6809.Word

/-!
# The condition code register

The eight condition codes carry the letters E F H I N Z V C, from bit 7 down to bit 0. A record
with one entry for each letter (`PerFlag`) serves twice: with `Bool` entries it is the register
itself (`Flags`), and with `Option Bool` entries it is a set of changes to single codes that have
not been applied yet. `Flags.toByte` and `Flags.ofByte` are the register's form in memory.
-/

namespace Machine6809

/-- One entry for each condition code. -/
structure PerFlag (α : Type) where
  /-- Entire state stacked. -/
  e : α
  /-- FIRQ masked. -/
  f : α
  /-- Carry out of bit 3. -/
  h : α
  /-- IRQ masked. -/
  i : α
  /-- Negative. -/
  n : α
  /-- Zero. -/
  z : α
  /-- Signed overflow. -/
  v : α
  /-- Carry or borrow. -/
  c : α
  deriving DecidableEq, Repr, Inhabited

namespace PerFlag

variable {α β γ : Type}

/-- The same entry for every code. -/
def all (x : α) : PerFlag α := ⟨x, x, x, x, x, x, x, x⟩

/-- Apply a function to every entry. -/
def map (g : α → β) (p : PerFlag α) : PerFlag β :=
  ⟨g p.e, g p.f, g p.h, g p.i, g p.n, g p.z, g p.v, g p.c⟩

/-- Combine two records entry by entry. -/
def zipWith (g : α → β → γ) (p : PerFlag α) (q : PerFlag β) : PerFlag γ :=
  ⟨g p.e q.e, g p.f q.f, g p.h q.h, g p.i q.i, g p.n q.n, g p.z q.z, g p.v q.v, g p.c q.c⟩

/-- The entries from E to C. -/
def toList (p : PerFlag α) : List α := [p.e, p.f, p.h, p.i, p.n, p.z, p.v, p.c]

end PerFlag

/-- The condition code register. -/
abbrev Flags := PerFlag Bool

namespace Flags

/-- All codes clear. -/
def none : Flags := PerFlag.all false

/-- The register as a byte, E in bit 7 and C in bit 0. -/
def toByte (cc : Flags) : Byte :=
  UInt8.ofNat (cc.toList.foldl (fun n b => 2 * n + b.toNat) 0)

/-- The register read from a byte. -/
def ofByte (b : Byte) : Flags :=
  ⟨bitOf b 7, bitOf b 6, bitOf b 5, bitOf b 4, bitOf b 3, bitOf b 2, bitOf b 1, bitOf b 0⟩

/-- The codes set in both. -/
def and (p q : Flags) : Flags := p.zipWith (· && ·) q

/-- The codes set in either. -/
def or (p q : Flags) : Flags := p.zipWith (· || ·) q

/-- Set or clear the codes selected by `mask` and leave the others alone. -/
def assign (cc mask : Flags) (on : Bool) : Flags :=
  cc.zipWith (fun old selected => if selected then on else old) mask

/-- All codes selected by `mask` are set. -/
def contains (cc mask : Flags) : Bool :=
  (cc.zipWith (fun held selected => !selected || held) mask).toList.all id

/-- The letters of the codes that are set, from E to C. -/
def letters (cc : Flags) : String :=
  String.ofList (((cc.toList.zip "EFHINZVC".toList).filter (·.1)).map (·.2))

end Flags

end Machine6809
