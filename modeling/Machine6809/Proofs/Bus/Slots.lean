import Machine6809.HexImage.Load
import Machine6809.Proofs.Bus.Chips
import Machine6809.Proofs.Bus.Places
import Machine6809.Proofs.Mmu.Requests
import Mathlib.Data.Nat.Notation
import Mathlib.Logic.Relation
import Mathlib.Tactic.SplitIfs

/-!
# What an access changes

The slot of a device (`Place.slot`) is where it begins, how many addresses it has, what it is called
and of what kind it is. Slots decide which device an address belongs to, and no access changes them.

Whoever makes an access, and wherever it goes, one place may have taken a byte afterwards and the
memory management unit may have answered one request. `Bus.Accessed` says so, with the kinds of
device that take bytes as a parameter: the processor cannot change ROM, and the loader can. It holds
for each kind of access (`accessed_read`, `accessed_write`, `accessed_debugRead`,
`accessed_debugWrite`, `accessed_loaderWrite`), and whoever needs an invariant of the bus goes
through it and not through the devices again: the slots stay (`Accessed.slots_eq`), ROM shows the
same bytes (`Accessed.answers`), and so does everything that a request keeps true of the unit
(`Accessed.unit_of`).
-/

namespace Machine6809

/-! ### Slots -/

/-- What is known of an attached device without looking at its bytes. -/
structure Slot where
  base : ℕ
  name : String
  kind : DeviceKind
  size : ℕ
  deriving DecidableEq

namespace Slot

/-- The first address behind the device. -/
def limit (slot : Slot) : ℕ := slot.base + slot.size

/-- The address belongs to the device. -/
def Covers (slot : Slot) (a : Word) : Prop := slot.base ≤ a.toNat ∧ a.toNat < slot.limit

end Slot

namespace Place

/-- The slot of a place. -/
def slot (place : Place) : Slot :=
  ⟨place.base, place.device.name, place.device.kind, place.device.size⟩

/-- A place covers the addresses of its slot. -/
theorem covers_iff (place : Place) (a : Word) : place.covers a = true ↔ place.slot.Covers a := by
  unfold covers Slot.Covers
  rw [Bool.and_eq_true, decide_eq_true_eq, decide_eq_true_eq]
  exact Iff.rfl

theorem covers_congr {place place' : Place} (h : place'.slot = place.slot) (a : Word) :
    place'.covers a = place.covers a := by
  rw [Bool.eq_iff_iff, covers_iff, covers_iff, h]

/-- A stored byte leaves the slot alone. -/
@[simp] theorem slot_poke (place : Place) (a : Word) (v : Byte) :
    (place.poke a v).slot = place.slot := by
  obtain ⟨base, device⟩ := place
  cases device <;> simp [poke, Device.poke, slot, Device.size, Device.name, Device.kind]

@[simp] theorem slot_pokeDefault (place : Place) (a : Word) (v : Byte) :
    (place.pokeDefault a v).slot = place.slot := by
  obtain ⟨base, device⟩ := place
  cases device <;> rfl

end Place

namespace Bus

/-- The slots of the devices, in the order in which they were attached. -/
def slots (bus : Bus) : List Slot := bus.places.toList.map Place.slot

theorem length_slots (bus : Bus) : bus.slots.length = bus.places.size := by
  simp [slots]

theorem getElem?_slots (bus : Bus) (i : Fin bus.places.size) :
    bus.slots[i.val]? = some (bus.placeAt i).slot := by
  simp [slots]

/-- The slot of a place is among the slots of the bus. -/
theorem slot_mem_slots (bus : Bus) (i : Fin bus.places.size) : (bus.placeAt i).slot ∈ bus.slots :=
  List.mem_map_of_mem (Array.mem_toList_iff.mpr (Array.getElem_mem i.isLt))

/-- Which place is found depends on the slots. -/
theorem find?_of_slots {bus bus' : Bus} {a : Word} {i : Fin bus.places.size}
    (h : bus'.slots = bus.slots) (hi : i.val < bus'.places.size) (ha : bus.find? a = some i) :
    bus'.find? a = some ⟨i, hi⟩ := by
  have hsize : bus'.places.size = bus.places.size := by
    rw [← length_slots, ← length_slots, h]
  rw [find?_congr hsize, ha]
  · rfl
  · intro j hj hj'
    refine Place.covers_congr (Option.some.inj ?_) a
    exact (getElem?_slots bus' ⟨j, hj'⟩).symm.trans (h ▸ getElem?_slots bus ⟨j, hj⟩)

/-! ### Accesses -/

/-- From `bus` to `bus'` there was an access. At most one place has taken a byte, and its kind is
one that does. The memory management unit has answered at most one request, and its messages have
been taken from it. -/
structure Accessed (takes : DeviceKind → Bool) (bus bus' : Bus) : Prop where
  nextFree_eq : bus'.nextFree = bus.nextFree
  places : bus'.places = bus.places ∨
    ∃ (i : Fin bus.places.size) (f : Place → Place), takes (bus.placeAt i).device.kind = true ∧
      (∀ place, (f place).slot = place.slot) ∧ bus'.places = bus.places.modify i f
  unit : bus'.mmu = bus.mmu ∨ ∃ r, bus'.mmu = (bus.mmu.serve r).drain.2

/-- The devices that take bytes from the processor. -/
def writable (kind : DeviceKind) : Bool := kind ≠ .rom

variable {bus bus' : Bus} {takes : DeviceKind → Bool}

/-- With the places as before, what happened was an access if the unit has served at most one
request. -/
theorem accessed_of_places (hplaces : bus'.places = bus.places)
    (hnext : bus'.nextFree = bus.nextFree)
    (hunit : bus'.mmu = bus.mmu ∨ ∃ r, bus'.mmu = (bus.mmu.serve r).drain.2) :
    Accessed takes bus bus' :=
  ⟨hnext, .inl hplaces, hunit⟩

theorem accessed_self : Accessed takes bus bus := accessed_of_places rfl rfl (.inl rfl)

theorem accessed_note (message : Message) : Accessed takes bus (bus.note message) :=
  accessed_of_places rfl rfl (.inl rfl)

theorem accessed_drain : Accessed takes bus bus.drain.2 := accessed_of_places rfl rfl (.inl rfl)

theorem accessed_report (h : Hardware) (event : ProbeEvent) :
    Accessed takes bus (bus.report h event) := by
  unfold report
  split
  · exact accessed_note _
  · exact accessed_self

/-- Acting on the unit is an access, if what is done to it is a request. -/
theorem accessed_onMmu {α : Type} {f : Mmu poolNodes → α × Mmu poolNodes} (r : Mmu.Request)
    (hf : (f bus.mmu).2 = bus.mmu.serve r) : Accessed takes bus (bus.onMmu f).2 := by
  refine accessed_of_places rfl rfl (.inr ⟨r, ?_⟩)
  rw [← hf]
  rfl

/-- So is a change at a place whose kind takes bytes. -/
theorem accessed_modifyPlace {i : Fin bus.places.size} {f : Place → Place}
    (htakes : takes (bus.placeAt i).device.kind = true)
    (hf : ∀ place, (f place).slot = place.slot) : Accessed takes bus (bus.modifyPlace i f) :=
  ⟨rfl, .inr ⟨i, f, htakes, hf, rfl⟩, .inl rfl⟩

/-- With more kinds that take bytes, it is an access all the more. -/
theorem Accessed.mono {takes' : DeviceKind → Bool} (h : Accessed takes bus bus')
    (hle : ∀ kind, takes kind = true → takes' kind = true) : Accessed takes' bus bus' := by
  refine ⟨h.nextFree_eq, h.places.imp_right ?_, h.unit⟩
  rintro ⟨i, f, htakes, hf⟩
  exact ⟨i, f, hle _ htakes, hf⟩

/-- Reading at a place is an access. -/
theorem accessed_readAt (place : Place) (a : Word) :
    Accessed takes bus (bus.readAt place a).2 := by
  obtain ⟨base, device⟩ := place
  cases device with
  | ram | rom | registers => exact accessed_self
  | windows defaults =>
    exact accessed_onMmu (f := (·.readWindow _ _)) (.readWindow _ _) rfl
  | hardware h => exact accessed_report h _

theorem accessed_writeAt (i : Fin bus.places.size) (a : Word) (v : Byte) :
    Accessed writable bus (bus.writeAt i a v) := by
  cases hdevice : (bus.placeAt i).device with
  | ram name contents =>
    simp only [writeAt, hdevice]
    exact accessed_modifyPlace (by rw [hdevice]; rfl) fun place => place.slot_poke a v
  -- ROM takes nothing, and says so
  | rom name contents =>
    simp only [writeAt, hdevice]
    exact accessed_note _
  | registers =>
    simp only [writeAt, hdevice]
    exact accessed_onMmu (.writeRegister _ v) rfl
  | windows defaults =>
    simp only [writeAt, hdevice]
    split
    · exact accessed_onMmu (.writeWindow _ _ v) rfl
    · -- no node took the byte, so it goes behind the windows, and the unit was asked all the same
      exact ⟨rfl, .inr ⟨i, _, by rw [hdevice]; rfl, fun place => place.slot_pokeDefault a v, rfl⟩,
        .inr ⟨.writeWindow _ _ v, rfl⟩⟩
  | hardware h =>
    simp only [writeAt, hdevice]
    exact accessed_report h _

/-- Storing a byte directly is one, if the device is of a kind that takes it. -/
theorem accessed_pokeAt {i : Fin bus.places.size} (a : Word) (v : Byte)
    (hle : ∀ kind, writable kind = true → takes kind = true)
    (htakes : takes (bus.placeAt i).device.kind = true) :
    Accessed takes bus (bus.pokeAt i a v).2 := by
  unfold pokeAt
  split
  · exact accessed_modifyPlace htakes fun place => place.slot_poke a v
  · exact (accessed_writeAt i a v).mono hle

theorem accessed_read (takes : DeviceKind → Bool) (bus : Bus) (a : Word) :
    Accessed takes bus (bus.read a).2 := by
  unfold read
  split
  · exact accessed_readAt _ a
  · exact accessed_self

theorem accessed_write (a : Word) (v : Byte) : Accessed writable bus (bus.write a v) := by
  unfold write
  split
  · exact accessed_writeAt _ a v
  · exact accessed_self

theorem accessed_debugRead (takes : DeviceKind → Bool) (bus : Bus) (a : Word) :
    Accessed takes bus (bus.debugRead a).2 := by
  unfold debugRead
  split
  · split
    · exact accessed_self
    · exact accessed_readAt _ a
  · exact accessed_self

theorem accessed_debugWrite (a : Word) (v : Byte) :
    Accessed writable bus (bus.debugWrite a v).2 := by
  unfold debugWrite
  split
  · split
    · exact accessed_note _
    · next hkind => exact accessed_pokeAt a v (fun _ h => h) (decide_eq_true hkind)
  · exact accessed_self

theorem accessed_loaderWrite (a : Word) (v : Byte) :
    Accessed (fun _ => true) bus (bus.loaderWrite a v).2 := by
  unfold loaderWrite
  split
  · exact accessed_pokeAt a v (fun _ _ => rfl) rfl
  · exact accessed_self

theorem accessed_signalDevice (event : BusEvent) (device : Device) :
    Accessed takes bus (signalDevice event bus device) := by
  unfold signalDevice
  split
  · exact accessed_onMmu .reset rfl
  · exact accessed_report _ _
  · exact accessed_self

/-! ### What accesses leave alone -/

namespace Accessed

/-- The slots of the devices stay what they are. -/
theorem slots_eq (h : Accessed takes bus bus') : bus'.slots = bus.slots := by
  obtain hsame | ⟨i, f, -, hf, hplaces⟩ := h.places
  · unfold slots
    rw [hsame]
  · refine List.ext_getElem (by simp [slots, hplaces]) fun j hj hj' => ?_
    simp only [slots, hplaces, List.getElem_map, Array.getElem_toList, Array.getElem_modify]
    split_ifs
    · exact hf _
    · rfl

/-- A byte of ROM stays what it is, unless the access may change ROM. -/
theorem answers {a : Word} {v : Byte} (h : Accessed takes bus bus') (hrom : takes .rom = false)
    (ha : bus.Answers a .rom v) : bus'.Answers a .rom v := by
  obtain hsame | ⟨i, f, htakes, hf, hplaces⟩ := h.places
  · -- no place has changed
    exact ha.congr ⟨hsame, h.nextFree_eq⟩
  · obtain ⟨j, name, contents, hfind, hdevice, hget⟩ := ha
    -- what has taken a byte is another device
    have hij : i ≠ j := by
      rintro rfl
      rw [hdevice] at htakes
      exact absurd (htakes.symm.trans hrom) (by simp)
    have hj : j.val < bus'.places.size := by
      rw [hplaces, Array.size_modify]
      exact j.isLt
    have hplace : bus'.placeAt ⟨j, hj⟩ = bus.placeAt j := by
      simp only [Fin.getElem_fin, hplaces, Array.getElem_modify]
      exact if_neg fun hval => hij (Fin.ext hval)
    refine ⟨⟨j, hj⟩, name, contents, find?_of_slots h.slots_eq hj hfind, ?_, ?_⟩
    · rw [hplace]
      exact hdevice
    · rw [hplace]
      exact hget

/-- What every request keeps true of the memory management unit stays true. -/
theorem unit_of {P : Mmu poolNodes → Prop} (serve : ∀ m r, P m → P (m.serve r))
    (drain : ∀ m, P m → P m.drain.2) (h : Accessed takes bus bus') (hP : P bus.mmu) :
    P bus'.mmu := by
  obtain hsame | ⟨r, hserved⟩ := h.unit
  · exact hsame ▸ hP
  · exact hserved ▸ drain _ (serve _ r hP)

end Accessed

/-! ### Accesses in a row -/

/-- From `bus` to `bus'` there were accesses, one after the other. -/
def Accesses (takes : DeviceKind → Bool) : Bus → Bus → Prop :=
  Relation.ReflTransGen (Accessed takes)

namespace Accesses

/-- Any number of accesses leaves the slots as they are. -/
theorem slots_eq (h : Accesses takes bus bus') :
    bus'.slots = bus.slots ∧ bus'.nextFree = bus.nextFree := by
  induction h with
  | refl => exact ⟨rfl, rfl⟩
  | tail _ last ih => exact ⟨last.slots_eq.trans ih.1, last.nextFree_eq.trans ih.2⟩

/-- What each request keeps true of the unit is true of it after any number of accesses. -/
theorem unit_of {P : Mmu poolNodes → Prop} (serve : ∀ m r, P m → P (m.serve r))
    (drain : ∀ m, P m → P m.drain.2) (h : Accesses takes bus bus') (hP : P bus.mmu) :
    P bus'.mmu := by
  induction h with
  | refl => exact hP
  | tail _ last ih => exact last.unit_of serve drain ih

/-- With more kinds that take bytes they are accesses all the more. -/
theorem mono {takes' : DeviceKind → Bool} (h : Accesses takes bus bus')
    (hle : ∀ kind, takes kind = true → takes' kind = true) : Accesses takes' bus bus' := by
  induction h with
  | refl => exact .refl
  | tail _ last ih => exact ih.tail (last.mono hle)

/-- A ROM that takes no bytes shows what it has shown. -/
theorem answers {a : Word} {v : Byte} (h : Accesses takes bus bus') (hrom : takes .rom = false)
    (ha : bus.Answers a .rom v) : bus'.Answers a .rom v := by
  induction h with
  | refl => exact ha
  | tail _ last ih => exact last.answers hrom ih

end Accesses

/-- One access is a number of accesses. -/
theorem Accessed.accesses (h : Accessed takes bus bus') : Accesses takes bus bus' :=
  Relation.ReflTransGen.single h

/-- Telling every device about an event is an access for each of them. -/
theorem accesses_signal (takes : DeviceKind → Bool) (bus : Bus) (event : BusEvent) :
    Accesses takes bus (bus.signal event) := by
  unfold signal
  generalize bus.places.toList.map Place.device = devices
  induction devices generalizing bus with
  | nil => exact .refl
  | cons device devices ih => exact .head (accessed_signalDevice event device) (ih _)

/-- A byte of an image is stored by an access. -/
theorem accesses_storeImageByte (bus : Bus) (a : Word) (v : Byte) :
    Accesses (fun _ => true) bus (bus.storeImageByte a v) := by
  have stored : Accesses (fun _ => true) bus (bus.loaderWrite a v).2 :=
    (accessed_loaderWrite a v).accesses
  unfold storeImageByte
  split
  · next hwrite =>
    rw [hwrite] at stored
    exact stored
  -- the byte fell nowhere, and the message says so
  · next hwrite =>
    rw [hwrite] at stored
    exact stored.tail (accessed_note _)

/-- So are the bytes of a record. -/
theorem accesses_storeImageBytes (bus : Bus) (address : ℕ) (bytes : List Byte) :
    Accesses (fun _ => true) bus (bus.storeImageBytes address bytes).2 := by
  induction bytes generalizing bus address with
  | nil => exact .refl
  | cons b bytes ih =>
    unfold storeImageBytes
    split_ifs
    · exact (accesses_storeImageByte bus _ b).trans (ih _ _)
    · exact .refl

/-- So are those of all records, up to where loading stops. -/
theorem accesses_loadRecords (bus : Bus) (base : ℕ) (image : Image)
    (records : List (Except RecordError Record)) :
    Accesses (fun _ => true) bus (bus.loadRecords base image records).2 := by
  -- record by record; only data records store anything
  induction records generalizing bus base image with
  | nil => exact .refl
  | cons record records ih =>
    cases record with
    | error e => exact .refl
    | ok record =>
      cases record with
      | data offset bytes =>
        have stored := accesses_storeImageBytes bus (base + offset.toNat) bytes
        unfold loadRecords
        dsimp only
        split
        · next hstore =>
          rw [hstore] at stored
          exact stored.trans (ih _ _ _)
        -- a byte that no device has taken ends the load
        · next hstore =>
          rw [hstore] at stored
          exact stored
      | endOfFile => exact .refl
      | segmentBase | linearBase | segmentStart => exact ih _ _ _
      | linearStart address =>
        unfold loadRecords
        dsimp only
        split_ifs
        · exact ih _ _ _
        · exact .refl

/-- Loading an image is a number of accesses. -/
theorem accesses_loadImage (bus : Bus) (text : String) :
    Accesses (fun _ => true) bus (bus.loadImage text).2 := by
  have records := accesses_loadRecords bus 0 Image.empty (recordsOf text)
  unfold loadImage
  -- with a message in the end if it has succeeded
  split
  · next hload =>
    rw [hload] at records
    exact records.tail (accessed_note _)
  · next hload =>
    rw [hload] at records
    exact records

/-! ### Who reaches the memory management unit -/

theorem mmu_report (h : Hardware) (event : ProbeEvent) : (bus.report h event).mmu = bus.mmu := by
  unfold report
  split <;> rfl

/-- A read that changes the memory management unit is one from its windows. -/
theorem exists_slot_of_mmu_read {a : Word} (h : (bus.read a).2.mmu ≠ bus.mmu) :
    ∃ slot ∈ bus.slots, slot.kind = .banked ∧ slot.Covers a := by
  unfold read at h
  cases hfind : bus.find? a with
  -- the open bus changes nothing
  | none =>
    rw [hfind] at h
    exact absurd rfl h
  | some i =>
    refine ⟨_, bus.slot_mem_slots i, ?_, (Place.covers_iff _ a).mp (covers_of_find? hfind)⟩
    rw [hfind] at h
    dsimp only at h
    show (bus.placeAt i).device.kind = .banked
    generalize bus.placeAt i = place at h ⊢
    obtain ⟨base, device⟩ := place
    -- of all devices only the windows ask the unit something that can change it
    cases device with
    | windows defaults => rfl
    | ram | rom | registers => exact absurd rfl h
    | hardware h' => exact absurd (mmu_report h' _) h

/-- A write that changes the memory management unit is one to its registers or its windows. -/
theorem exists_slot_of_mmu_write {a : Word} {v : Byte} (h : (bus.write a v).mmu ≠ bus.mmu) :
    ∃ slot ∈ bus.slots, (slot.kind = .mmu ∨ slot.kind = .banked) ∧ slot.Covers a := by
  unfold write at h
  cases hfind : bus.find? a with
  -- the open bus changes nothing
  | none =>
    rw [hfind] at h
    exact absurd rfl h
  | some i =>
    refine ⟨_, bus.slot_mem_slots i, ?_, (Place.covers_iff _ a).mp (covers_of_find? hfind)⟩
    rw [hfind] at h
    dsimp only at h
    unfold writeAt at h
    show (bus.placeAt i).device.kind = .mmu ∨ (bus.placeAt i).device.kind = .banked
    -- the register block and the windows; the others leave the unit alone
    cases hdevice : (bus.placeAt i).device with
    | registers => exact .inl rfl
    | windows defaults => exact .inr rfl
    | ram | rom =>
      simp only [hdevice] at h
      exact absurd rfl h
    | hardware h' =>
      simp only [hdevice] at h
      exact absurd (mmu_report h' _) h

end Bus

end Machine6809
