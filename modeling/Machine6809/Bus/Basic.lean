import Machine6809.Bus.Device
import Machine6809.Error

/-!
# The bus

Devices are attached one after the other, each at the first address that the one before left free,
so that they tile the address space from zero upward. An access goes to the device that covers its
address; where there is none, reads give the open bus and writes are dropped.

Next to reading and writing as the processor does, there is an access for debuggers, which goes
to the bytes of a device that has some, and one for loaders, which also writes ROM.

All devices that stand for the memory management unit share the one that the bus holds. Whatever
it leaves in its journal is moved to the journal of the bus at once.
-/

namespace Machine6809

/-- The size of the address space. -/
def addressSpace : Nat := 0x10000

/-- A device at its first address. -/
structure Place where
  base : Nat
  device : Device
  deriving DecidableEq, Repr, Inhabited

namespace Place

/-- The address belongs to the device. -/
def covers (place : Place) (address : Word) : Bool :=
  place.base ≤ address.toNat && address.toNat < place.base + place.device.size

/-- The distance of an address from the first one. The device takes it in a word, from the first
address as a word. -/
def offset (place : Place) (address : Word) : Nat := (address - UInt16.ofNat place.base).toNat

section Covered

variable {place : Place} {a b : Word}

/-- A covered address lies between the base and the end of the device. -/
theorem covers_bounds (h : place.covers a = true) :
    place.base ≤ a.toNat ∧ a.toNat < place.base + place.device.size := by
  unfold covers at h
  rwa [Bool.and_eq_true, decide_eq_true_eq, decide_eq_true_eq] at h

/-- Inside the device the first address fits in a word and the distance does not wrap. -/
theorem offset_eq (h : place.covers a = true) : place.offset a = a.toNat - place.base := by
  have below := a.toNat_lt
  obtain ⟨first, -⟩ := covers_bounds h
  rw [offset, UInt16.toNat_sub, UInt16.toNat_ofNat']
  omega

/-- The offset of a covered address lies inside the device. -/
theorem offset_lt (h : place.covers a = true) : place.offset a < place.device.size := by
  obtain ⟨first, last⟩ := covers_bounds h
  rw [offset_eq h]
  omega

/-- Two addresses of a device are told apart by their offsets. -/
theorem offset_inj (ha : place.covers a = true) (hb : place.covers b = true) :
    place.offset a = place.offset b ↔ a = b := by
  obtain ⟨firstA, -⟩ := covers_bounds ha
  obtain ⟨firstB, -⟩ := covers_bounds hb
  rw [offset_eq ha, offset_eq hb, ← UInt16.toNat_inj]
  omega

end Covered

/-- The byte of the device's own at an address. -/
def ownByte (place : Place) (contents : Array Byte) (address : Word) : Byte :=
  contents.getD (place.offset address) openBus

/-- Put a byte into the device's own bytes. -/
def poke (place : Place) (address : Word) (value : Byte) : Place :=
  let offset := place.offset address
  match place with
  | { base, device } => { base, device := device.poke offset value }

/-- Put a byte behind the windows. -/
def pokeDefault (place : Place) (address : Word) (value : Byte) : Place :=
  let offset := place.offset address
  match place with
  | { base, device } => { base, device := device.pokeDefault offset value }

end Place

/-- The bus with what is attached to it. -/
structure Bus where
  places : Array Place
  /-- The first address that no device covers. -/
  nextFree : Nat
  mmu : Mmu poolNodes
  journal : Journal

namespace Bus

/-- A bus without devices. -/
def empty : Bus :=
  { places := #[], nextFree := 0, mmu := Mmu.initial poolNodes_pos, journal := #[] }

/-- Leave a message. -/
def note (bus : Bus) (message : Message) : Bus := { bus with journal := bus.journal.push message }

/-- Let a device that reports tell what it has seen. -/
def report (bus : Bus) (h : Hardware) (event : ProbeEvent) : Bus :=
  if h.reports then bus.note (.probe h.name event) else bus

/-- The bus with an empty journal, and the messages it held. -/
def drain (bus : Bus) : Journal × Bus := (bus.journal, { bus with journal := #[] })

/-- Act on the memory management unit. -/
@[inline] def onMmu {α : Type} (bus : Bus) (f : Mmu poolNodes → α × Mmu poolNodes) : α × Bus :=
  match bus with
  | { places, nextFree, mmu, journal } =>
    let (a, mmu) := f mmu
    let (messages, mmu) := mmu.drain
    (a, { places, nextFree, mmu, journal := journal ++ messages })

/-! ### Attaching -/

/-- Attach a device at the next free address and give that address. -/
def attach (bus : Bus) (device : Device) : Except Error Word × Bus :=
  let base := bus.nextFree
  let bus := match device with
    | .hardware h => bus.report h (.attached (UInt16.ofNat base))
    | _ => bus
  if device.size = 0 then
    (.error (.zeroSizeDevice device.name (base % addressSpace)), bus)
  else if addressSpace < base + device.size then
    (.error (.spaceExhausted device.name base device.size), bus)
  else
    let bus := bus.note (.attached device.name base (base + device.size - 1))
    (.ok (UInt16.ofNat base),
      { bus with places := bus.places.push { base, device }, nextFree := base + device.size })

/-- The place with a number. -/
abbrev placeAt (bus : Bus) (i : Fin bus.places.size) : Place := bus.places[i]

/-- The place that covers an address. -/
def find? (bus : Bus) (address : Word) : Option (Fin bus.places.size) :=
  bus.places.findFinIdx? (·.covers address)

/-- Change one place. -/
@[inline] def modifyPlace (bus : Bus) (i : Nat) (f : Place → Place) : Bus :=
  match bus with
  | { places, nextFree, mmu, journal } => { places := places.modify i f, nextFree, mmu, journal }

/-! ### Access -/

/-- The window that an offset of the windows belongs to, and the offset in it. -/
def locate (offset : Nat) : Nat × Word := (offset / windowSize, UInt16.ofNat (offset % windowSize))

/-- Ask a device for the byte at an address of its own. -/
def readAt (bus : Bus) (place : Place) (address : Word) : Byte × Bus :=
  let offset := place.offset address
  match place.device with
  | .ram _ contents => (place.ownByte contents address, bus)
  | .rom _ contents => (place.ownByte contents address, bus)
  | .registers => (bus.mmu.readRegister (UInt16.ofNat offset), bus)
  | .windows defaults =>
    let (w, o) := locate offset
    let (shown, bus) := bus.onMmu (·.readWindow w o)
    (shown.getD (defaults.getD offset 0), bus)
  | .hardware h => (h.answer address (UInt16.ofNat offset), bus.report h (.read address))

/-- Give the device at a place a byte for an address of its own. -/
def writeAt (bus : Bus) (i : Fin bus.places.size) (address : Word) (value : Byte) : Bus :=
  let offset := (bus.placeAt i).offset address
  match (bus.placeAt i).device with
  | .ram .. => bus.modifyPlace i (·.poke address value)
  | .rom name _ => bus.note (.romWriteIgnored name value address)
  | .registers =>
    (bus.onMmu fun mmu => ((), mmu.writeRegister (UInt16.ofNat offset) value)).2
  | .windows _ =>
    let (w, o) := locate offset
    let (taken, bus) := bus.onMmu (·.writeWindow w o value)
    -- a window that shows nothing keeps the byte in its defaults
    if taken then bus else bus.modifyPlace i (·.pokeDefault address value)
  | .hardware h => bus.report h (.written address value)

/-- Read a byte as the processor does. -/
def read (bus : Bus) (address : Word) : Byte × Bus :=
  match bus.find? address with
  | some i => bus.readAt (bus.placeAt i) address
  | none => (openBus, bus)

/-- Write a byte as the processor does. -/
def write (bus : Bus) (address : Word) (value : Byte) : Bus :=
  match bus.find? address with
  | some i => bus.writeAt i address value
  | none => bus

/-- Read a byte for a debugger: from the device's own bytes, if it has any. -/
def debugRead (bus : Bus) (address : Word) : Byte × Bus :=
  match bus.find? address with
  | some i =>
    match (bus.placeAt i).device.contents? with
    | some contents => ((bus.placeAt i).ownByte contents address, bus)
    | none => bus.readAt (bus.placeAt i) address
  | none => (openBus, bus)

/-- Put a byte into the device's own bytes, or write it if it has none, and say whether it went
anywhere. -/
def pokeAt (bus : Bus) (i : Fin bus.places.size) (address : Word) (value : Byte) : Bool × Bus :=
  match (bus.placeAt i).device.contents? with
  | some contents =>
    ((bus.placeAt i).offset address < contents.size, bus.modifyPlace i (·.poke address value))
  | none => (true, bus.writeAt i address value)

/-- Write a byte for a debugger, who may not change ROM, and say whether it went anywhere. -/
def debugWrite (bus : Bus) (address : Word) (value : Byte) : Bool × Bus :=
  match bus.find? address with
  | some i =>
    if (bus.placeAt i).device.kind = .rom then (false, bus.note (.debugWriteRefused address))
    else bus.pokeAt i address value
  | none => (false, bus)

/-- Write a byte for a loader, who may also change ROM, and say whether it went anywhere. -/
def loaderWrite (bus : Bus) (address : Word) (value : Byte) : Bool × Bus :=
  match bus.find? address with
  | some i => bus.pokeAt i address value
  | none => (false, bus)

/-! ### Events -/

/-- Tell one device about an event. -/
def signalDevice (event : BusEvent) (bus : Bus) (device : Device) : Bus :=
  match device, event with
  | .registers, .reset => (bus.onMmu fun mmu => ((), mmu.reset)).2
  | .hardware h, event => bus.report h (.signalled event)
  | _, _ => bus

/-- Tell every device about an event, in the order in which they were attached. -/
def signal (bus : Bus) (event : BusEvent) : Bus :=
  (bus.places.toList.map Place.device).foldl (signalDevice event) bus

/-! ### As memory -/

/-- The messages of the bus as signals. -/
def signals (journal : Journal) : List Signal := journal.toList.map Signal.note

instance : Memory Bus where
  load bus address :=
    let (value, bus) := bus.read address
    let (journal, bus) := bus.drain
    { value, memory := bus, signals := signals journal }
  store bus address value :=
    let (journal, bus) := (bus.write address value).drain
    { value := (), memory := bus, signals := signals journal }

end Bus

end Machine6809
