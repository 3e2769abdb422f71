import Machine6809.Proofs.Bus.Messages
import Machine6809.Proofs.Bus.Slots
import Mathlib.Data.Nat.Notation
import Mathlib.Tactic.SplitIfs

/-!
# Devices tile the address space

Devices get their addresses one after the other, from zero upward and without gaps, as long as there
is room. `Tiles` says that slots lie like that, and an address between the first and the last one
then belongs to exactly one of them, wherever one begins to search.

What becomes of a bus is decided by the devices that are offered to it (`Bus.allot`). Calls of any
other kind leave the slots alone, and so does an offer that is refused, for all that anybody can see
later (`Bus.devices_tile_addresses`). No access that is meant for a device goes past its last byte
(`Bus.Reaches`).
-/

namespace Machine6809

/-! ### Slots one behind the other -/

/-- The slots lie one behind the other, the first one at `start`, and none is empty. They end at
`stop`. -/
def Tiles (start : ℕ) : List Slot → ℕ → Prop
  | [], stop => stop = start
  | slot :: slots, stop => slot.base = start ∧ 0 < slot.size ∧ Tiles slot.limit slots stop

section Tiles

variable {start stop : ℕ} {slots : List Slot} {slot slot' : Slot} {a : Word} {i j : ℕ}

/-- A slot that begins where the others end makes the tiling longer. -/
theorem Tiles.concat (h : Tiles start slots slot.base) (hsize : 0 < slot.size) :
    Tiles start (slots ++ [slot]) slot.limit := by
  induction slots generalizing start with
  | nil => exact ⟨h, hsize, rfl⟩
  | cons first slots ih => exact ⟨h.1, h.2.1, ih h.2.2⟩

/-- All slots lie between the start and the end. -/
theorem Tiles.bounds (h : Tiles start slots stop) :
    start ≤ stop ∧ ∀ slot ∈ slots, start ≤ slot.base ∧ slot.limit ≤ stop := by
  -- slot by slot, each of which begins where the one before it ends
  induction slots generalizing start with
  | nil => exact ⟨Nat.le_of_eq h.symm, fun _ hmem => absurd hmem List.not_mem_nil⟩
  | cons first slots ih =>
    obtain ⟨rfl, -, hrest⟩ := h
    obtain ⟨hle, hall⟩ := ih hrest
    have hlimit : first.base ≤ first.limit := Nat.le_add_right ..
    refine ⟨Nat.le_trans hlimit hle,
      List.forall_mem_cons.mpr ⟨⟨Nat.le_refl _, hle⟩, fun slot hmem => ?_⟩⟩
    exact ⟨Nat.le_trans hlimit (hall slot hmem).1, (hall slot hmem).2⟩

/-- The first slot begins where the tiling begins. -/
theorem Tiles.base_head (h : Tiles start slots stop) (hhead : slots.head? = some slot) :
    slot.base = start := by
  obtain ⟨rest, rfl⟩ := List.head?_eq_some_iff.mp hhead
  exact h.1

/-- Each slot begins where the one before it ends. -/
theorem Tiles.base_next (h : Tiles start slots stop) (hi : slots[i]? = some slot)
    (hnext : slots[i + 1]? = some slot') : slot'.base = slot.limit := by
  induction slots generalizing start i with
  | nil => exact absurd hi (by simp)
  | cons first slots ih =>
    cases i with
    | zero =>
      obtain rfl := Option.some.inj hi
      exact h.2.2.base_head (List.head?_eq_getElem?.trans hnext)
    | succ i => exact ih h.2.2 hi hnext

/-- The last one ends where it ends. -/
theorem Tiles.limit_last (h : Tiles start slots stop) :
    stop = (slots.getLast?.map Slot.limit).getD start := by
  induction slots generalizing start with
  | nil => exact h
  | cons first slots ih =>
    -- the last of one slot is that slot, and otherwise it is the last of the rest
    cases slots with
    | nil => exact h.2.2
    | cons second rest =>
      rw [List.getLast?_cons_cons]
      have := ih h.2.2
      rwa [List.getLast?_eq_some_getLast (List.cons_ne_nil _ _)] at this ⊢

/-- Every address in between belongs to a slot. -/
theorem Tiles.exists_covers (h : Tiles start slots stop) (hstart : start ≤ a.toNat)
    (hstop : a.toNat < stop) : ∃ (i : ℕ) (slot : Slot), slots[i]? = some slot ∧ slot.Covers a := by
  induction slots generalizing start with
  | nil =>
    have : stop = start := h
    omega
  | cons first slots ih =>
    obtain ⟨rfl, -, hrest⟩ := h
    by_cases hfirst : a.toNat < first.limit
    · -- in the first slot, or in the tiling behind it
      exact ⟨0, first, rfl, hstart, hfirst⟩
    · obtain ⟨i, slot, hi, hcovers⟩ := ih hrest (Nat.not_lt.mp hfirst)
      exact ⟨i + 1, slot, hi, hcovers⟩

/-- No address belongs to two slots. -/
theorem Tiles.eq_of_covers (h : Tiles start slots stop) (hi : slots[i]? = some slot)
    (hj : slots[j]? = some slot') (ha : slot.Covers a) (ha' : slot'.Covers a) : i = j := by
  -- all that lies behind the first slot begins at its end or later
  have behind : ∀ {first : Slot} {rest : List Slot} {k : ℕ} {later : Slot},
      Tiles first.limit rest stop → rest[k]? = some later → first.Covers a → later.Covers a →
        False := by
    intro first rest k later hrest hk hfirst hlater
    have hle := (hrest.bounds.2 later (List.mem_of_getElem? hk)).1
    exact Nat.not_le_of_lt hfirst.2 (Nat.le_trans hle hlater.1)
  -- slot by slot: both in the first one, one of them there, or none
  induction slots generalizing start i j with
  | nil => exact absurd hi (by simp)
  | cons first slots ih =>
    cases i with
    | zero =>
      cases j with
      | zero => rfl
      | succ j =>
        obtain rfl := Option.some.inj hi
        exact (behind h.2.2 hj ha ha').elim
    | succ i =>
      cases j with
      | zero =>
        obtain rfl := Option.some.inj hj
        exact (behind h.2.2 hi ha' ha).elim
      | succ j => exact congrArg (· + 1) (ih h.2.2 hi hj)

end Tiles

/-- The slot of a device that gets the addresses from `base` on. -/
def Device.slotAt (device : Device) (base : ℕ) : Slot :=
  ⟨base, device.name, device.kind, device.size⟩

namespace Bus

/-! ### Calls -/

/-- What can be asked of a bus. -/
inductive Call where
  | attach (device : Device)
  | read (address : Word)
  | write (address : Word) (value : Byte)
  | debugRead (address : Word)
  | debugWrite (address : Word) (value : Byte)
  | loaderWrite (address : Word) (value : Byte)
  | signal (event : BusEvent)
  /-- Take its messages from the bus. -/
  | drain

/-- The bus after a call. -/
def call (bus : Bus) : Call → Bus
  | .attach device => (bus.attach device).2
  | .read a => (bus.read a).2
  | .write a v => bus.write a v
  | .debugRead a => (bus.debugRead a).2
  | .debugWrite a v => (bus.debugWrite a v).2
  | .loaderWrite a v => (bus.loaderWrite a v).2
  | .signal event => bus.signal event
  | .drain => bus.drain.2

/-- The bus after calls one after the other. -/
def callAll (bus : Bus) (calls : List Call) : Bus := calls.foldl call bus

/-- The device that a call offers to the bus. -/
def Call.device? : Call → Option Device
  | .attach device => some device
  | _ => none

/-- The device is no larger than what is left behind `next`, and it is not empty. -/
def Fits (next : ℕ) (device : Device) : Prop :=
  0 < device.size ∧ device.size ≤ addressSpace - next

instance (next : ℕ) (device : Device) : Decidable (Fits next device) :=
  inferInstanceAs (Decidable (_ ∧ _))

/-- The slots that are given to devices, if they are offered one after the other and the addresses
from `next` on are free. A device that does not fit gets none, and the next one is offered the same
address. -/
def allot (next : ℕ) : List Device → List Slot
  | [] => []
  | device :: devices =>
    if Fits next device then device.slotAt next :: allot (next + device.size) devices
    else allot next devices

theorem allot_cons (next : ℕ) (device : Device) (devices : List Device) :
    allot next (device :: devices) =
      if Fits next device then device.slotAt next :: allot (next + device.size) devices
      else allot next devices := rfl

/-- The slots of the bus lie one behind the other from zero up to the first free address. -/
structure Tiled (bus : Bus) : Prop where
  tiles : Tiles 0 bus.slots bus.nextFree
  le : bus.nextFree ≤ addressSpace

variable {bus bus' : Bus} {device : Device} {a : Word}

/-- A device that fits gets the first free addresses. -/
theorem attach_of_fits (h : Fits bus.nextFree device) :
    (bus.attach device).1 = .ok (UInt16.ofNat bus.nextFree) ∧
      (bus.attach device).2.slots = bus.slots ++ [device.slotAt bus.nextFree] ∧
      (bus.attach device).2.nextFree = bus.nextFree + device.size := by
  obtain ⟨bus₁, halike, heq⟩ := attach_eq bus device
  obtain ⟨hpos, hroom⟩ := h
  -- neither of the two refusals applies
  have hempty : ¬device.size = 0 := Nat.ne_of_gt hpos
  have hlarge : ¬addressSpace < bus.nextFree + device.size := by omega
  rw [heq, if_neg hempty, if_neg hlarge]
  refine ⟨rfl, ?_, rfl⟩
  show (bus₁.places.push _).toList.map Place.slot = _
  rw [Array.toList_push, List.map_append, ← halike.slots_eq]
  rfl

/-- An offer that is refused leaves nothing but a message. -/
theorem attach_of_not_fits (h : ¬Fits bus.nextFree device) :
    (device.size = 0 ∧
        (bus.attach device).1
          = .error (.zeroSizeDevice device.name (bus.nextFree % addressSpace)) ∨
      addressSpace - bus.nextFree < device.size ∧
        (bus.attach device).1 = .error (.spaceExhausted device.name bus.nextFree device.size)) ∧
      Alike bus (bus.attach device).2 := by
  obtain ⟨bus₁, halike, heq⟩ := attach_eq bus device
  rw [heq]
  by_cases hempty : device.size = 0
  · -- a device without any address
    rw [if_pos hempty]
    exact ⟨.inl ⟨hempty, rfl⟩, halike⟩
  · -- one that is too large for what is left
    have hlarge : addressSpace - bus.nextFree < device.size :=
      Nat.not_le.mp fun hroom => h ⟨Nat.pos_of_ne_zero hempty, hroom⟩
    rw [if_neg hempty, if_pos (by omega)]
    exact ⟨.inr ⟨hlarge, rfl⟩, halike⟩

/-- A call that offers no device leaves the slots alone. -/
theorem slots_call {c : Call} (h : c.device? = none) (bus : Bus) :
    (bus.call c).slots = bus.slots ∧ (bus.call c).nextFree = bus.nextFree := by
  -- all calls but the offer of a device are accesses
  have of_accessed : ∀ {takes : DeviceKind → Bool} {bus' : Bus}, Accessed takes bus bus' →
      bus'.slots = bus.slots ∧ bus'.nextFree = bus.nextFree :=
    fun h => ⟨h.slots_eq, h.nextFree_eq⟩
  cases c with
  | attach device => exact nomatch h
  | read a => exact of_accessed (accessed_read writable bus a)
  | write a v => exact of_accessed (accessed_write a v)
  | debugRead a => exact of_accessed (accessed_debugRead writable bus a)
  | debugWrite a v => exact of_accessed (accessed_debugWrite a v)
  | loaderWrite a v => exact of_accessed (accessed_loaderWrite a v)
  | signal event => exact (accesses_signal writable bus event).slots_eq
  | drain => exact ⟨rfl, rfl⟩

/-- Each call keeps the bus tiled. -/
theorem Tiled.call (h : bus.Tiled) (c : Call) : (bus.call c).Tiled := by
  -- only the offer of a device can add a slot
  cases hc : c.device? with
  | none =>
    obtain ⟨hslots, hnext⟩ := slots_call hc bus
    exact ⟨by rw [hslots, hnext]; exact h.tiles, by rw [hnext]; exact h.le⟩
  | some device =>
    cases c with
    | attach offered =>
      obtain rfl := Option.some.inj hc
      by_cases hfits : Fits bus.nextFree offered
      · -- taken: its slot is put behind the others
        obtain ⟨-, hslots, hnext⟩ := attach_of_fits hfits
        have hroom := hfits.2
        have hle := h.le
        constructor
        · show Tiles 0 (bus.attach offered).2.slots (bus.attach offered).2.nextFree
          rw [hslots, hnext]
          exact Tiles.concat h.tiles hfits.1
        · show (bus.attach offered).2.nextFree ≤ addressSpace
          omega
      · -- refused: nothing has changed but the messages
        have halike := (attach_of_not_fits hfits).2
        exact ⟨by rw [Bus.call, halike.slots_eq, halike.nextFree_eq]; exact h.tiles,
          by rw [Bus.call, halike.nextFree_eq]; exact h.le⟩
    | _ => exact nomatch hc

theorem tiled_empty : empty.Tiled := ⟨rfl, Nat.zero_le _⟩

/-- After any calls the bus is tiled. -/
theorem tiled_callAll (calls : List Call) : (empty.callAll calls).Tiled := by
  suffices ∀ bus : Bus, bus.Tiled → (bus.callAll calls).Tiled from this empty tiled_empty
  induction calls with
  | nil => exact fun _ h => h
  | cons c calls ih => exact fun bus h => ih _ (h.call c)

/-- What is attached is decided by the devices that are offered, in the order in which they are. -/
theorem slots_callAll (bus : Bus) (calls : List Call) :
    (bus.callAll calls).slots = bus.slots ++ allot bus.nextFree (calls.filterMap Call.device?) := by
  -- call by call, with the first free address moving on by what fits
  induction calls generalizing bus with
  | nil => exact (List.append_nil _).symm
  | cons c calls ih =>
    show ((bus.call c).callAll calls).slots = _
    rw [ih, List.filterMap_cons]
    cases hc : c.device? with
    | none =>
      -- a call that offers nothing leaves slots and free addresses alone
      obtain ⟨hslots, hnext⟩ := slots_call hc bus
      rw [hslots, hnext]
    | some device =>
      cases c with
      | attach offered =>
        obtain rfl := Option.some.inj hc
        rw [allot_cons]
        by_cases hfits : Fits bus.nextFree offered
        · obtain ⟨-, hslots, hnext⟩ := attach_of_fits hfits
          rw [if_pos hfits, Bus.call, hslots, hnext, List.append_assoc]
          rfl
        · have halike := (attach_of_not_fits hfits).2
          rw [if_neg hfits, Bus.call, halike.slots_eq, halike.nextFree_eq]
      | _ => exact nomatch hc

/-- A call has the same effect on buses that differ in messages only. -/
theorem Alike.call (h : Alike bus bus') (c : Call) : Alike (bus.call c) (bus'.call c) := by
  -- by the call, each of which has been looked at
  cases c with
  | attach device => exact (deaf_attach device bus bus' h).2
  | read a => exact (deaf_read a bus bus' h).2
  | write a v => exact h.write a v
  | debugRead a => exact (deaf_debugRead a bus bus' h).2
  | debugWrite a v => exact (deaf_debugWrite a v bus bus' h).2
  | loaderWrite a v => exact (deaf_loaderWrite a v bus bus' h).2
  | signal event => exact h.signal event
  | drain => exact ⟨⟨h.places_eq, h.nextFree_eq⟩, h.mmu_eq⟩

theorem Alike.callAll (h : Alike bus bus') (calls : List Call) :
    Alike (bus.callAll calls) (bus'.callAll calls) := by
  induction calls generalizing bus bus' with
  | nil => exact h
  | cons c calls ih => exact ih (h.call c)

/-! ### Dispatch -/

/-- The address belongs to the place and to no other. Whoever asks for it gets there, and where the
device has bytes of its own there is one for the address. -/
structure Reaches (bus : Bus) (a : Word) (i : Fin bus.places.size) : Prop where
  covers : (bus.placeAt i).slot.Covers a
  unique : ∀ j : Fin bus.places.size, (bus.placeAt j).slot.Covers a → j = i
  /-- The search may go through the places in any order. -/
  any_order : ∀ order : List Place, order.Perm bus.places.toList →
    order.find? (·.covers a) = some (bus.placeAt i)
  offset_lt : (bus.placeAt i).offset a < (bus.placeAt i).device.size
  read_eq : bus.read a = bus.readAt (bus.placeAt i) a
  write_eq : ∀ v, bus.write a v = bus.writeAt i a v
  debugRead_eq : ∀ contents, (bus.placeAt i).device.contents? = some contents →
    ∃ h : (bus.placeAt i).offset a < contents.size,
      bus.debugRead a = (contents[(bus.placeAt i).offset a], bus)
  loaderWrite_eq : ∀ v, ((bus.placeAt i).device.contents?).isSome = true →
    bus.loaderWrite a v = (true, bus.modifyPlace i (·.poke a v))
  debugWrite_eq : ∀ v, ((bus.placeAt i).device.contents?).isSome = true →
    (bus.placeAt i).device.kind ≠ .rom →
      bus.debugWrite a v = (true, bus.modifyPlace i (·.poke a v))

/-- A device that has bytes of its own has one for each of its addresses. -/
theorem size_contents {contents : Array Byte} (h : device.contents? = some contents) :
    contents.size = device.size := by
  cases device with
  | ram | rom =>
    obtain rfl := Option.some.inj h
    rfl
  | registers | windows | hardware => exact nomatch h

/-- There is a byte for the one that is put into a device with bytes of its own. -/
theorem pokeAt_of_covers {i : Fin bus.places.size} (h : (bus.placeAt i).slot.Covers a) (v : Byte)
    (hsome : ((bus.placeAt i).device.contents?).isSome = true) :
    bus.pokeAt i a v = (true, bus.modifyPlace i (·.poke a v)) := by
  obtain ⟨contents, hcontents⟩ := Option.isSome_iff_exists.mp hsome
  have hlt := size_contents hcontents ▸ Place.offset_lt ((Place.covers_iff _ a).mpr h)
  unfold pokeAt
  rw [hcontents]
  dsimp only
  rw [decide_eq_true hlt]

/-- A place that alone has the address is found in any order. -/
theorem find?_of_perm {i : Fin bus.places.size} {order : List Place}
    (h : (bus.placeAt i).slot.Covers a)
    (unique : ∀ j : Fin bus.places.size, (bus.placeAt j).slot.Covers a → j = i)
    (hperm : order.Perm bus.places.toList) :
    order.find? (·.covers a) = some (bus.placeAt i) := by
  cases hfirst : order.find? (·.covers a) with
  -- the place is somewhere in the order, so something is found
  | none =>
    have hmem := hperm.mem_iff.mpr (Array.mem_toList_iff.mpr (Array.getElem_mem i.isLt))
    exact absurd ((Place.covers_iff _ a).mpr h) (List.find?_eq_none.mp hfirst _ hmem)
  -- what is found covers the address, and only one place does
  | some place =>
    obtain ⟨j, hj, rfl⟩ := List.getElem_of_mem
      (hperm.mem_iff.mp (List.mem_of_find?_eq_some hfirst))
    have hcovers : bus.places.toList[j].covers a = true :=
      List.find?_some (p := fun place : Place => place.covers a) hfirst
    have hji := unique ⟨j, hj⟩ ((Place.covers_iff _ a).mp hcovers)
    rw [← hji]
    rfl

/-- What is found for an address is reached by it, if nothing else has the address. -/
theorem reaches_of_find? {i : Fin bus.places.size} (ha : bus.find? a = some i)
    (unique : ∀ j : Fin bus.places.size, (bus.placeAt j).slot.Covers a → j = i) :
    bus.Reaches a i := by
  have covers : (bus.placeAt i).slot.Covers a := (Place.covers_iff _ a).mp (covers_of_find? ha)
  have offset_lt := Place.offset_lt ((Place.covers_iff _ a).mpr covers)
  -- whatever accesses the address goes to the place that is found
  constructor
  case covers => exact covers
  case unique => exact unique
  case any_order => exact fun order hperm => find?_of_perm covers unique hperm
  case offset_lt => exact offset_lt
  case read_eq =>
    unfold read
    rw [ha]
  case write_eq =>
    intro v
    unfold write
    rw [ha]
  case debugRead_eq =>
    intro contents hcontents
    -- a device that shows its contents has a byte for each offset
    have hlt := size_contents hcontents ▸ offset_lt
    refine ⟨hlt, ?_⟩
    unfold debugRead
    rw [ha]
    dsimp only
    rw [hcontents, Array.getElem_eq_getD openBus]
    rfl
  case loaderWrite_eq =>
    intro v hsome
    unfold loaderWrite
    rw [ha]
    exact pokeAt_of_covers covers v hsome
  case debugWrite_eq =>
    intro v hsome hkind
    unfold debugWrite
    rw [ha]
    dsimp only
    rw [if_neg hkind]
    exact pokeAt_of_covers covers v hsome

/-- Where slots tile the addresses, a search ends at one of them. -/
theorem exists_find? {stop : ℕ} (h : Tiles 0 bus.slots stop) (ha : a.toNat < stop) :
    ∃ i, bus.find? a = some i := by
  obtain ⟨k, slot, hk, hslot⟩ := h.exists_covers (Nat.zero_le _) ha
  have hlt : k < bus.places.size := by
    rw [← length_slots]
    exact (List.getElem?_eq_some_iff.mp hk).1
  -- slots and places correspond one to one
  obtain rfl : slot = (bus.placeAt ⟨k, hlt⟩).slot :=
    Option.some.inj (hk.symm.trans (getElem?_slots bus ⟨k, hlt⟩))
  cases hfind : bus.find? a with
  | none => exact absurd ((Place.covers_iff _ a).mpr hslot) (find?_eq_none_iff.mp hfind ⟨k, hlt⟩)
  | some i => exact ⟨i, rfl⟩

/-- An address below the first free one reaches a device. -/
theorem Tiled.exists_reaches (h : bus.Tiled) (ha : a.toNat < bus.nextFree) :
    ∃ i, bus.Reaches a i := by
  obtain ⟨i, hfind⟩ := exists_find? h.tiles ha
  have covers : (bus.placeAt i).slot.Covers a := (Place.covers_iff _ a).mp (covers_of_find? hfind)
  refine ⟨i, reaches_of_find? hfind fun j hj => Fin.ext ?_⟩
  exact h.tiles.eq_of_covers (getElem?_slots bus j) (getElem?_slots bus i) hj covers

/-- An address from the first free one on reaches nothing. -/
theorem Tiled.not_covers (h : bus.Tiled) (ha : bus.nextFree ≤ a.toNat)
    (i : Fin bus.places.size) : ¬(bus.placeAt i).slot.Covers a := fun hcovers =>
  Nat.not_le_of_lt hcovers.2 (Nat.le_trans (h.tiles.bounds.2 _ (slot_mem_slots bus i)).2 ha)

/-- From the first free address upward no place is found. -/
theorem Tiled.find?_eq_none (h : bus.Tiled) (ha : bus.nextFree ≤ a.toNat) :
    bus.find? a = none :=
  find?_eq_none_iff.mpr fun i hcovers => h.not_covers ha i ((Place.covers_iff _ a).mp hcovers)

/-! ### Any history of a bus -/

/-- The devices of the bus, to which these calls have been made, tile the low addresses. -/
structure Tiling (calls : List Call) (bus : Bus) : Prop where
  /-- The slots are those of the devices that fitted when they were offered, in this order. -/
  order : bus.slots = allot 0 (calls.filterMap Call.device?)
  base_first : ∀ slot, bus.slots.head? = some slot → slot.base = 0
  base_next : ∀ i slot slot', bus.slots[i]? = some slot → bus.slots[i + 1]? = some slot' →
    slot'.base = slot.limit
  nextFree_eq : bus.nextFree = (bus.slots.getLast?.map Slot.limit).getD 0
  nextFree_le : bus.nextFree ≤ addressSpace
  /-- An offer is taken exactly when the device fits, -/
  attach_ok_iff : ∀ device, (∃ base, (bus.attach device).1 = .ok base) ↔
    0 < device.size ∧ device.size ≤ addressSpace - bus.nextFree
  /-- it then gets the first free address, which fits in a word, -/
  attached : ∀ device base, (bus.attach device).1 = .ok base →
    base.toNat = bus.nextFree ∧
      (bus.attach device).2.slots = bus.slots ++ [device.slotAt bus.nextFree] ∧
      (bus.attach device).2.nextFree = bus.nextFree + device.size
  /-- and an offer that is refused does nothing that anybody can see later. -/
  refused : ∀ device e, (bus.attach device).1 = .error e →
    (device.size = 0 ∧ e = .zeroSizeDevice device.name (bus.nextFree % addressSpace) ∨
      addressSpace - bus.nextFree < device.size ∧
        e = .spaceExhausted device.name bus.nextFree device.size) ∧
    (bus.attach device).2.places = bus.places ∧
    (bus.attach device).2.nextFree = bus.nextFree ∧
    (bus.attach device).2.mmu = bus.mmu ∧
    ∀ later a,
      (((bus.attach device).2.callAll later).read a).1 = ((bus.callAll later).read a).1 ∧
      (((bus.attach device).2.callAll later).debugRead a).1 = ((bus.callAll later).debugRead a).1
  /-- An address below the first free one reaches exactly one device, -/
  reaches : ∀ a : Word, a.toNat < bus.nextFree → ∃ i, bus.Reaches a i
  /-- and the other addresses reach none. -/
  misses : ∀ a : Word, bus.nextFree ≤ a.toNat →
    (∀ i : Fin bus.places.size, ¬(bus.placeAt i).slot.Covers a) ∧
      bus.read a = (openBus, bus) ∧ bus.debugRead a = (openBus, bus) ∧
      ∀ v, bus.write a v = bus ∧ bus.debugWrite a v = (false, bus) ∧
        bus.loaderWrite a v = (false, bus)

/-- A device fits exactly when it is taken. -/
theorem attach_ok_iff (bus : Bus) (device : Device) :
    (∃ base, (bus.attach device).1 = .ok base) ↔ Fits bus.nextFree device := by
  by_cases hfits : Fits bus.nextFree device
  · exact iff_of_true ⟨_, (attach_of_fits hfits).1⟩ hfits
  · refine iff_of_false ?_ hfits
    rintro ⟨base, hok⟩
    obtain ⟨⟨-, herror⟩ | ⟨-, herror⟩, -⟩ := attach_of_not_fits hfits
    · exact nomatch hok.symm.trans herror
    · exact nomatch hok.symm.trans herror

/-- A tiled bus with the slots as they were allotted has all the properties of a tiling. -/
theorem Tiled.tiling {calls : List Call} (h : bus.Tiled)
    (order : bus.slots = allot 0 (calls.filterMap Call.device?)) : Tiling calls bus := by
  constructor
  case order => exact order
  case base_first => exact fun slot hhead => h.tiles.base_head hhead
  case base_next => exact fun i slot slot' hi hnext => h.tiles.base_next hi hnext
  case nextFree_eq => exact h.tiles.limit_last
  case nextFree_le => exact h.le
  case attach_ok_iff => exact attach_ok_iff bus
  case attached =>
    intro device base hok
    obtain ⟨hbase, hslots, hnext⟩ := attach_of_fits ((attach_ok_iff bus device).mp ⟨base, hok⟩)
    obtain rfl := Except.ok.inj (hok.symm.trans hbase)
    have hfits := (attach_ok_iff bus device).mp ⟨_, hok⟩
    -- there is room for at least one byte, so the first free address is one
    have hlt : bus.nextFree < addressSpace := Nat.lt_of_sub_pos (Nat.lt_of_lt_of_le hfits.1 hfits.2)
    exact ⟨UInt16.toNat_ofNat_of_lt hlt, hslots, hnext⟩
  case refused =>
    intro device e herror
    -- had it fitted, it would have been taken
    have hfits : ¬Fits bus.nextFree device := fun hfits =>
      nomatch herror.symm.trans (attach_of_fits hfits).1
    obtain ⟨hwhy, halike⟩ := attach_of_not_fits hfits
    refine ⟨?_, halike.places_eq, halike.nextFree_eq, halike.mmu_eq, fun later a => ?_⟩
    · refine hwhy.imp (fun ⟨hsize, he⟩ => ⟨hsize, ?_⟩) (fun ⟨hsize, he⟩ => ⟨hsize, ?_⟩)
      · exact Except.error.inj (herror.symm.trans he)
      · exact Except.error.inj (herror.symm.trans he)
    · -- a refusal leaves messages, and these are not seen by anybody later
      have hlater := halike.callAll later
      exact ⟨(deaf_read a _ _ hlater).1, (deaf_debugRead a _ _ hlater).1⟩
  case reaches => exact fun a ha => h.exists_reaches ha
  case misses =>
    intro a ha
    have hnone := h.find?_eq_none ha
    refine ⟨h.not_covers ha, ?_, ?_, fun v => ⟨?_, ?_, ?_⟩⟩
    · rw [read, hnone]
    · rw [debugRead, hnone]
    · rw [write, hnone]
    · rw [debugWrite, hnone]
    · rw [loaderWrite, hnone]

/-- **Devices tile the low addresses.** Whatever is offered to a new bus, and whatever else is asked
of it in between. -/
theorem devices_tile_addresses (calls : List Call) : Tiling calls (empty.callAll calls) :=
  (tiled_callAll calls).tiling (slots_callAll empty calls)

end Bus

end Machine6809
