import Machine6809.Memory.Access

/-!
# Observed memory

A memory under observation records every byte stored through it, in order, and may have a
trigger: an address at which each load posts a register write, as an observer on another thread
of control would. What is read and what is kept is that of the memory inside.
-/

namespace Machine6809

/-- A register write that every load from an address posts. -/
structure Trigger where
  address : Word
  write : RegisterWrite
  deriving DecidableEq, Repr

/-- A byte store as it was made. -/
structure ByteStore where
  address : Word
  value : Byte
  deriving DecidableEq, Repr

/-- A store as an address and a value. -/
def ByteStore.text (s : ByteStore) : String := s!"{hexWord s.address}={hexByte s.value}"

/-- A memory under observation. -/
structure Observed (μ : Type) where
  inner : μ
  trigger : Option Trigger
  /-- The stores made so far, the oldest first. -/
  stores : Array ByteStore

namespace Observed

variable {μ : Type}

/-- What a load from an address posts. -/
def posted (m : Observed μ) (address : Word) : List Signal :=
  match m.trigger with
  | some t => if t.address = address then [.post t.write] else []
  | none => []

/-- Forget the stores recorded so far. -/
def clearStores (m : Observed μ) : Observed μ := { m with stores := #[] }

instance [Memory μ] : Memory (Observed μ) where
  load
    | { inner, trigger, stores }, address =>
      let before := posted { inner := (), trigger, stores := #[] } address
      let r := Memory.load inner address
      { value := r.value, memory := { inner := r.memory, trigger, stores },
        signals := before ++ r.signals }
  store
    | { inner, trigger, stores }, address, value =>
      let r := Memory.store inner address value
      { value := (), signals := r.signals,
        memory := { inner := r.memory, trigger, stores := stores.push { address, value } } }

end Observed

end Machine6809
