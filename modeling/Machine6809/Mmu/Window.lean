import Machine6809.Mmu.State

/-!
# The windows

A window shows the payloads of a chain one after the other, 32 bytes for each node. A window that
shows no chain leaves the access to others. An offset beyond the end of the chain reads as zero,
takes nothing and sets the error register.
-/

namespace Machine6809

namespace Mmu

variable {n : Nat}

/-- The node behind an offset of a window that shows the given chain. -/
def nodeBehind? (m : Mmu n) (handle : Fin n) (offset : Word) : Option (Fin n) :=
  m.pool.follow? (offset.toNat / payloadSize) handle

/-- Read through a window; no value if it shows nothing. -/
def readWindow (m : Mmu n) (w : Nat) (offset : Word) : Option Byte × Mmu n :=
  match m.window? w with
  | none => (none, m)
  | some handle =>
    match m.nodeBehind? handle offset with
    | some i => (some ((m.pool.node i).payload.getD (offset.toNat % payloadSize) 0), m)
    | none => (some 0, m.fail .bank)

/-- Write through a window; `false` if it shows nothing. -/
def writeWindow (m : Mmu n) (w : Nat) (offset : Word) (value : Byte) : Bool × Mmu n :=
  match m.window? w with
  | none => (false, m)
  | some handle =>
    match m.nodeBehind? handle offset with
    | some i => (true, (m.writeNode i (offset.toNat % payloadSize) value).2)
    | none => (true, m.fail .bank)

end Mmu

end Machine6809
