import Machine6809.Proofs.Bus.Chips
import Machine6809.Proofs.Bus.Slots
import Mathlib.Data.Nat.Notation

/-!
# Messages do not matter to a bus

A bus leaves messages in its journal and nobody on the bus reads them. Two buses that differ in
their messages only (`Bus.Alike`) give the same bytes, and after the same access they still differ
in nothing else.
-/

namespace Machine6809

namespace Bus

/-- But for their messages the two buses are the same. -/
structure Alike (bus bus' : Bus) : Prop extends SameDevices bus bus' where
  mmu_eq : bus'.mmu = bus.mmu

variable {bus bus' bus₁ : Bus}

theorem Alike.refl (bus : Bus) : Alike bus bus := ⟨⟨rfl, rfl⟩, rfl⟩

theorem Alike.symm (h : Alike bus bus') : Alike bus' bus :=
  ⟨⟨h.places_eq.symm, h.nextFree_eq.symm⟩, h.mmu_eq.symm⟩

theorem Alike.trans (h : Alike bus bus₁) (h' : Alike bus₁ bus') : Alike bus bus' :=
  ⟨h.toSameDevices.trans h'.toSameDevices, h'.mmu_eq.trans h.mmu_eq⟩

theorem Alike.slots_eq (h : Alike bus bus') : bus'.slots = bus.slots :=
  congrArg (·.toList.map Place.slot) h.places_eq

theorem Alike.size_eq (h : Alike bus bus') : bus.places.size = bus'.places.size := by
  rw [h.places_eq]

theorem Alike.placeAt (h : Alike bus bus') (i : Fin bus.places.size) :
    bus'.placeAt (i.cast h.size_eq) = bus.placeAt i := by
  simp only [Fin.getElem_fin, Fin.val_cast, h.places_eq]

theorem Alike.find? (h : Alike bus bus') (a : Word) :
    bus'.find? a = (bus.find? a).map (Fin.cast h.size_eq) :=
  find?_congr h.size_eq.symm fun j _ _ => by simp only [h.places_eq]

theorem alike_note (bus : Bus) (message : Message) : Alike bus (bus.note message) :=
  ⟨⟨rfl, rfl⟩, rfl⟩

theorem alike_report (bus : Bus) (h : Hardware) (event : ProbeEvent) :
    Alike bus (bus.report h event) := by
  unfold report
  split
  · exact alike_note bus _
  · exact .refl bus

theorem Alike.note (h : Alike bus bus') (message : Message) :
    Alike (bus.note message) (bus'.note message) :=
  (alike_note bus message).symm.trans (h.trans (alike_note bus' message))

/-- A report is nothing but a message. -/
theorem Alike.report (h : Alike bus bus') (hw : Hardware) (event : ProbeEvent) :
    Alike (bus.report hw event) (bus'.report hw event) :=
  (alike_report bus hw event).symm.trans (h.trans (alike_report bus' hw event))

theorem Alike.modifyPlace (h : Alike bus bus') (i : ℕ) (f : Place → Place) :
    Alike (bus.modifyPlace i f) (bus'.modifyPlace i f) :=
  ⟨⟨congrArg (Array.modify · i f) h.places_eq, h.nextFree_eq⟩, h.mmu_eq⟩

/-! ### Actions that do not read the messages -/

/-- The action gives the same on buses that are alike, and leaves buses that are alike. -/
def Deaf {α : Type} (x : Bus → α × Bus) : Prop :=
  ∀ bus bus', Alike bus bus' → (x bus').1 = (x bus).1 ∧ Alike (x bus).2 (x bus').2

section Deaf

variable {α : Type}

/-- What the unit answers does not depend on the messages of the bus. -/
theorem deaf_onMmu (f : Mmu poolNodes → α × Mmu poolNodes) : Deaf (·.onMmu f) := by
  intro ⟨places, nextFree, mmu, journal⟩ ⟨places', nextFree', mmu', journal'⟩ h
  obtain ⟨⟨rfl, rfl⟩, rfl⟩ := h
  exact ⟨rfl, ⟨rfl, rfl⟩, rfl⟩

/-- Nor does the byte read at a place. -/
theorem deaf_readAt (place : Place) (a : Word) : Deaf (·.readAt place a) := by
  intro bus bus' h
  obtain ⟨base, device⟩ := place
  -- by the device: memory shows a byte, the rest looks at the unit or reports
  cases device with
  | ram | rom => exact ⟨rfl, h⟩
  | registers => exact ⟨congrArg (Mmu.readRegister · _) h.mmu_eq, h⟩
  | windows defaults =>
    obtain ⟨hshown, hafter⟩ := deaf_onMmu (·.readWindow _ _) bus bus' h
    exact ⟨congrArg (Option.getD · _) hshown, hafter⟩
  | hardware hw => exact ⟨rfl, h.report hw _⟩

/-- A write to a place has the same effect. -/
theorem Alike.writeAt (h : Alike bus bus') (i : Fin bus.places.size) (a : Word) (v : Byte) :
    Alike (bus.writeAt i a v) (bus'.writeAt (i.cast h.size_eq) a v) := by
  unfold Bus.writeAt
  rw [h.placeAt]
  generalize bus.placeAt i = place
  cases place.device with
  | ram => exact h.modifyPlace _ _
  | rom => exact h.note _
  | registers => exact (deaf_onMmu _ _ _ h).2
  | windows defaults =>
    obtain ⟨htaken, hafter⟩ := deaf_onMmu (·.writeWindow _ _ v) _ _ h
    dsimp only at htaken hafter ⊢
    rw [htaken]
    -- whether the window has taken the byte is the same on both sides
    split_ifs
    · exact hafter
    · exact hafter.modifyPlace _ _
  | hardware hw => exact h.report hw _

/-- A byte that is stored directly is taken or refused in the same way. -/
theorem deaf_pokeAt (h : Alike bus bus') (i : Fin bus.places.size) (a : Word) (v : Byte) :
    (bus'.pokeAt (i.cast h.size_eq) a v).1 = (bus.pokeAt i a v).1 ∧
      Alike (bus.pokeAt i a v).2 (bus'.pokeAt (i.cast h.size_eq) a v).2 := by
  unfold pokeAt
  rw [h.placeAt]
  cases (bus.placeAt i).device.contents? with
  | some contents => exact ⟨rfl, h.modifyPlace _ _⟩
  | none => exact ⟨rfl, h.writeAt i a v⟩

/-- Reading gives the same byte. -/
theorem deaf_read (a : Word) : Deaf (·.read a) := by
  intro bus bus' h
  dsimp only
  unfold read
  rw [h.find?]
  cases bus.find? a with
  -- the open bus
  | none => exact ⟨rfl, h⟩
  | some i =>
    dsimp only [Option.map_some]
    rw [h.placeAt]
    exact deaf_readAt (bus.placeAt i) a bus bus' h

/-- A debugger sees the same byte. -/
theorem deaf_debugRead (a : Word) : Deaf (·.debugRead a) := by
  intro bus bus' h
  dsimp only
  unfold debugRead
  rw [h.find?]
  cases bus.find? a with
  | none => exact ⟨rfl, h⟩
  | some i =>
    dsimp only [Option.map_some]
    rw [h.placeAt]
    -- memory is looked into, and other devices are read
    cases (bus.placeAt i).device.contents? with
    | some contents => exact ⟨rfl, h⟩
    | none => exact deaf_readAt (bus.placeAt i) a bus bus' h

theorem Alike.write (h : Alike bus bus') (a : Word) (v : Byte) :
    Alike (bus.write a v) (bus'.write a v) := by
  unfold Bus.write
  rw [h.find?]
  cases bus.find? a with
  | none => exact h
  | some i => exact h.writeAt i a v

/-- Writing from a debugger has the same effect, and the debugger is told the same. -/
theorem deaf_debugWrite (a : Word) (v : Byte) : Deaf (·.debugWrite a v) := by
  intro bus bus' h
  dsimp only
  unfold debugWrite
  rw [h.find?]
  cases bus.find? a with
  | none => exact ⟨rfl, h⟩
  | some i =>
    dsimp only [Option.map_some]
    rw [h.placeAt]
    split_ifs
    · -- refused, with a message
      exact ⟨rfl, h.note _⟩
    · exact deaf_pokeAt h i a v

theorem deaf_loaderWrite (a : Word) (v : Byte) : Deaf (·.loaderWrite a v) := by
  intro bus bus' h
  dsimp only
  unfold loaderWrite
  rw [h.find?]
  cases bus.find? a with
  | none => exact ⟨rfl, h⟩
  | some i => exact deaf_pokeAt h i a v

theorem Alike.signalDevice (h : Alike bus bus') (event : BusEvent) (device : Device) :
    Alike (signalDevice event bus device) (signalDevice event bus' device) := by
  unfold Bus.signalDevice
  split
  · exact (deaf_onMmu _ _ _ h).2
  · exact h.report _ _
  · exact h

/-- An event has the same effect on all devices. -/
theorem Alike.signal (h : Alike bus bus') (event : BusEvent) :
    Alike (bus.signal event) (bus'.signal event) := by
  unfold Bus.signal
  rw [h.places_eq]
  generalize bus.places.toList.map Place.device = devices
  induction devices generalizing bus bus' with
  | nil => exact h
  | cons device devices ih => exact ih (h.signalDevice event device)

/-- A device that is being attached may report it. After that it is taken or it is not, depending on
its size. -/
theorem attach_eq (bus : Bus) (device : Device) : ∃ bus₁, Alike bus bus₁ ∧ bus.attach device =
    if device.size = 0 then
      (.error (.zeroSizeDevice device.name (bus.nextFree % addressSpace)), bus₁)
    else if addressSpace < bus.nextFree + device.size then
      (.error (.spaceExhausted device.name bus.nextFree device.size), bus₁)
    else
      (.ok (UInt16.ofNat bus.nextFree),
        { bus₁.note (.attached device.name bus.nextFree (bus.nextFree + device.size - 1)) with
          places := bus₁.places.push ⟨bus.nextFree, device⟩
          nextFree := bus.nextFree + device.size }) := by
  cases device with
  | hardware hw => exact ⟨_, alike_report bus hw _, rfl⟩
  | ram | rom | registers | windows => exact ⟨_, .refl bus, rfl⟩

/-- Attaching a device leaves the unit alone. -/
theorem mmu_attach (bus : Bus) (device : Device) : (bus.attach device).2.mmu = bus.mmu := by
  obtain ⟨bus₁, halike, heq⟩ := attach_eq bus device
  rw [heq, ← halike.mmu_eq]
  split_ifs <;> rfl

/-- Where a device is attached does not depend on messages. -/
theorem deaf_attach (device : Device) : Deaf (·.attach device) := by
  intro bus bus' h
  obtain ⟨bus₁, h₁, heq⟩ := attach_eq bus device
  obtain ⟨bus₁', h₁', heq'⟩ := attach_eq bus' device
  -- before the device is put in, a message or two have been left on each side
  have between : Alike bus₁ bus₁' := h₁.symm.trans (h.trans h₁')
  dsimp only
  rw [heq, heq', h.nextFree_eq]
  split_ifs
  · exact ⟨rfl, between⟩
  · exact ⟨rfl, between⟩
  · exact ⟨rfl, ⟨congrArg (Array.push · _) between.places_eq, rfl⟩, between.mmu_eq⟩

end Deaf

end Bus

end Machine6809
