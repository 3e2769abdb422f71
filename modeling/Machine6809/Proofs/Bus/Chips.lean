import Machine6809.Bus.Basic
import Machine6809.Proofs.Bus.Places
import Machine6809.Proofs.Histories
import Mathlib.Data.Nat.Notation
import Mathlib.Tactic.SplitIfs

/-!
# Chips on a bus

RAM and ROM (`Chip`) are devices with bytes of their own and nothing else. On a bus with only such
devices (`Bus.OfChips`) everything is said by the byte that an address shows, and by the chip it
belongs to (`Bus.Answers`).

A byte that is given to the bus is taken by the device at its address or it is not, which depends on
the kind of the device and on who gives the byte. `Bus.Puts` is that event, and `Puts.answers` says
what it does to every address. It is the same for the processor, the debugger and the loader
(`puts_write`, `puts_debugWrite`, `puts_loaderWrite`). `Bus.Stores` is many such bytes in a row.
-/

namespace Machine6809

/-- A memory device. -/
inductive Chip where
  | ram | rom
  deriving DecidableEq

namespace Chip

/-- The kind of device that a chip is. -/
def kind : Chip → DeviceKind
  | .ram => .ram
  | .rom => .rom

/-- The byte that a chip is filled with. -/
def blank : Chip → Byte
  | .ram => 0x00
  | .rom => 0xFF

/-- A chip with bytes in it. -/
def holding (name : String) (contents : Array Byte) : Chip → Device
  | .ram => .ram name contents
  | .rom => .rom name contents

/-- A new chip, if there can be one of this size. -/
def new? (chip : Chip) (name : String) (size : ℕ) : Option Device :=
  match chip with
  | .ram => Device.ram? name size
  | .rom => Device.rom? name size

theorem size_holding (chip : Chip) (name : String) (contents : Array Byte) :
    (chip.holding name contents).size = contents.size := by
  cases chip <;> rfl

/-- A new chip is filled with its blank byte. -/
theorem eq_of_new? {chip : Chip} {name : String} {size : ℕ} {device : Device}
    (h : chip.new? name size = some device) :
    device = chip.holding name (Array.replicate size chip.blank) := by
  cases chip <;> exact (Option.some.inj (Option.ite_none_right_eq_some.mp h).2).symm

theorem kind_holding (chip : Chip) (name : String) (contents : Array Byte) :
    (chip.holding name contents).kind = chip.kind := by
  cases chip <;> rfl

/-- A stored byte is the one at its offset. -/
theorem poke_holding (chip : Chip) (name : String) (contents : Array Byte) (offset : ℕ) (v : Byte) :
    (chip.holding name contents).poke offset v
      = chip.holding name (contents.setIfInBounds offset v) := by
  cases chip <;> rfl

end Chip

/-- The byte of a store, if the store is to this address. -/
def byteFor? (a : Word) (store : Word × Byte) : Option Byte :=
  if store.1 = a then some store.2 else none

namespace Bus

/-- The devices that take bytes from the processor and the debugger. -/
def takesBytes (kind : DeviceKind) : Bool := kind = .ram

/-! ### What an address shows -/

/-- Nothing but chips is attached, and they cover the addresses below the first free one. -/
structure OfChips (bus : Bus) : Prop where
  chip : ∀ place ∈ bus.places,
    ∃ chip name contents, place.device = Chip.holding name contents chip
  find?_eq_none_iff : ∀ a, bus.find? a = none ↔ bus.nextFree ≤ a.toNat

/-- A chip has the address and `v` is its byte there. -/
def Answers (bus : Bus) (a : Word) (chip : Chip) (v : Byte) : Prop :=
  ∃ i name contents, bus.find? a = some i ∧
    (bus.placeAt i).device = Chip.holding name contents chip ∧
    contents[(bus.placeAt i).offset a]? = some v

/-- The two buses have the same devices with the same bytes at the same places. -/
structure SameDevices (bus bus' : Bus) : Prop where
  places_eq : bus'.places = bus.places
  nextFree_eq : bus'.nextFree = bus.nextFree

theorem SameDevices.of_eq {bus bus' : Bus} (h : bus' = bus) : SameDevices bus bus' :=
  ⟨congrArg Bus.places h, congrArg Bus.nextFree h⟩

theorem SameDevices.trans {bus bus₁ bus' : Bus} (h : SameDevices bus bus₁)
    (h' : SameDevices bus₁ bus') : SameDevices bus bus' :=
  ⟨h'.places_eq.trans h.places_eq, h'.nextFree_eq.trans h.nextFree_eq⟩

/-- The byte `v` is given to the bus for the address `a`, and the device there takes it if it is of
the right kind. -/
structure Puts (takes : DeviceKind → Bool) (a : Word) (v : Byte) (bus bus' : Bus) : Prop where
  nextFree_eq : bus'.nextFree = bus.nextFree
  missed : bus.find? a = none → bus'.places = bus.places
  taken : ∀ i, bus.find? a = some i → takes (bus.placeAt i).device.kind = true →
    bus'.places = bus.places.modify i (·.poke a v)
  refused : ∀ i, bus.find? a = some i → takes (bus.placeAt i).device.kind = false →
    bus'.places = bus.places

section Answers

variable {bus bus' : Bus} {a b : Word} {chip : Chip} {v w : Byte} {takes : DeviceKind → Bool}

/-- A bus without devices has none that is not a chip. -/
theorem ofChips_empty : empty.OfChips where
  chip place hplace := absurd hplace (Array.not_mem_empty place)
  find?_eq_none_iff _ := ⟨fun _ => Nat.zero_le _,
    fun _ => Bus.find?_eq_none_iff.mpr fun j => absurd j.isLt (Nat.not_lt_zero _)⟩

/-- The device at a place is a chip. -/
theorem OfChips.device (h : bus.OfChips) (i : Fin bus.places.size) :
    ∃ chip name contents, (bus.placeAt i).device = Chip.holding name contents chip :=
  h.chip _ (Array.getElem_mem i.isLt)

/-- An address that is found is below the first free one. -/
theorem OfChips.lt_nextFree (h : bus.OfChips) {i : Fin bus.places.size}
    (ha : bus.find? a = some i) : a.toNat < bus.nextFree := by
  refine Nat.not_le.mp fun hle => ?_
  exact absurd (((h.find?_eq_none_iff a).mpr hle).symm.trans ha) (by simp)

/-- A chip answers at each address below the first free one. -/
theorem OfChips.exists_answers (h : bus.OfChips) (ha : a.toNat < bus.nextFree) :
    ∃ chip v, bus.Answers a chip v := by
  cases hfind : bus.find? a with
  | none => exact absurd ha (Nat.not_lt.mpr ((h.find?_eq_none_iff a).mp hfind))
  | some i =>
    obtain ⟨chip, name, contents, hdevice⟩ := h.device i
    have hlt := Place.offset_lt (covers_of_find? hfind)
    rw [hdevice, Chip.size_holding] at hlt
    exact ⟨chip, _, i, name, contents, hfind, hdevice, Array.getElem?_eq_getElem hlt⟩

/-- And at no other. -/
theorem Answers.lt_nextFree (h : bus.OfChips) (ha : bus.Answers a chip v) :
    a.toNat < bus.nextFree := by
  obtain ⟨i, name, contents, hfind, -⟩ := ha
  exact h.lt_nextFree hfind

/-- The device that is found at an address is of the kind of its chip. -/
theorem Answers.kind_eq {i : Fin bus.places.size} (ha : bus.Answers a chip v)
    (hi : bus.find? a = some i) : (bus.placeAt i).device.kind = chip.kind := by
  obtain ⟨j, name, contents, hj, hdevice, -⟩ := ha
  obtain rfl : i = j := Option.some.inj (hi.symm.trans hj)
  rw [hdevice, Chip.kind_holding]

/-! ### Reading -/

/-- The processor reads the byte of the chip that answers. -/
theorem Answers.read (ha : bus.Answers a chip v) : bus.read a = (v, bus) := by
  obtain ⟨i, name, contents, hfind, hdevice, hget⟩ := ha
  -- the byte at the offset exists, so it is not the open bus that is seen
  have hbyte : contents.getD ((bus.placeAt i).offset a) openBus = v := by
    rw [Array.getD_eq_getD_getElem?, hget]
    rfl
  unfold Bus.read readAt
  rw [hfind]
  dsimp only
  rw [hdevice]
  cases chip <;> exact congrArg (·, bus) hbyte

theorem Answers.debugRead (ha : bus.Answers a chip v) : bus.debugRead a = (v, bus) := by
  obtain ⟨i, name, contents, hfind, hdevice, hget⟩ := ha
  have hbyte : contents.getD ((bus.placeAt i).offset a) openBus = v := by
    rw [Array.getD_eq_getD_getElem?, hget]
    rfl
  unfold Bus.debugRead
  rw [hfind]
  dsimp only
  rw [hdevice]
  cases chip <;> exact congrArg (·, bus) hbyte

/-- From the first free address upward there is the open bus. -/
theorem OfChips.read_of_le (h : bus.OfChips) (ha : bus.nextFree ≤ a.toNat) :
    bus.read a = (openBus, bus) := by
  unfold Bus.read
  rw [(h.find?_eq_none_iff a).mpr ha]

theorem OfChips.debugRead_of_le (h : bus.OfChips) (ha : bus.nextFree ≤ a.toNat) :
    bus.debugRead a = (openBus, bus) := by
  unfold Bus.debugRead
  rw [(h.find?_eq_none_iff a).mpr ha]

/-- Reading changes nothing. -/
theorem OfChips.read_eq (h : bus.OfChips) (a : Word) :
    (bus.read a).2 = bus ∧ bus.debugRead a = bus.read a := by
  by_cases ha : a.toNat < bus.nextFree
  · obtain ⟨chip, v, hv⟩ := h.exists_answers ha
    exact ⟨by rw [hv.read], hv.debugRead.trans hv.read.symm⟩
  · have hle := Nat.not_lt.mp ha
    exact ⟨by rw [h.read_of_le hle], (h.debugRead_of_le hle).trans (h.read_of_le hle).symm⟩

/-- Which chip answers with what depends on the devices. -/
theorem Answers.congr (h : SameDevices bus bus') (ha : bus.Answers a chip v) :
    bus'.Answers a chip v := by
  obtain ⟨places, nextFree, mmu, journal⟩ := bus
  obtain ⟨places', nextFree', mmu', journal'⟩ := bus'
  -- the unit and the journal may differ, but no chip looks at them
  obtain ⟨rfl, rfl⟩ := h
  exact ha

theorem OfChips.congr (h : SameDevices bus bus') (hbus : bus.OfChips) : bus'.OfChips := by
  obtain ⟨places, nextFree, mmu, journal⟩ := bus
  obtain ⟨places', nextFree', mmu', journal'⟩ := bus'
  obtain ⟨rfl, rfl⟩ := h
  exact ⟨hbus.chip, hbus.find?_eq_none_iff⟩

theorem OfChips.read_congr (h : SameDevices bus bus') (hbus : bus.OfChips) (a : Word) :
    (bus'.read a).1 = (bus.read a).1 := by
  by_cases ha : a.toNat < bus.nextFree
  · obtain ⟨chip, v, hv⟩ := hbus.exists_answers ha
    rw [hv.read, (hv.congr h).read]
  · have hle := Nat.not_lt.mp ha
    rw [hbus.read_of_le hle, (hbus.congr h).read_of_le (h.nextFree_eq ▸ hle)]

/-! ### A single byte -/

/-- A byte given to a place goes to its device, at the offset of the address. -/
theorem poke_eq (place : Place) (a : Word) (v : Byte) :
    place.poke a v = { place with device := place.device.poke (place.offset a) v } := rfl

theorem size_poke (device : Device) (offset : ℕ) (v : Byte) :
    (device.poke offset v).size = device.size := by
  cases device with
  | ram name contents => exact Array.size_setIfInBounds
  | rom name contents => exact Array.size_setIfInBounds
  | registers | windows defaults | hardware h => rfl

theorem covers_poke (place : Place) (a b : Word) (v : Byte) :
    (place.poke a v).covers b = place.covers b := by
  unfold Place.covers
  rw [poke_eq, size_poke]

/-- After a byte was taken at place `j`, the places are those from before, and the one at `j` has
the byte. -/
theorem getElem_of_taken {j : ℕ} (hplaces : bus'.places = bus.places.modify j (·.poke a v))
    (i : Fin bus.places.size) (hi : i.val < bus'.places.size) :
    bus'.placeAt ⟨i, hi⟩
      = if j = i then (bus.placeAt i).poke a v else bus.placeAt i := by
  simp only [Fin.getElem_fin, hplaces, Array.getElem_modify]

/-- After a byte was taken the places cover what they have covered. -/
theorem covers_of_taken {j : ℕ} (hplaces : bus'.places = bus.places.modify j (·.poke a v))
    (i : Fin bus.places.size) (hi : i.val < bus'.places.size) :
    (bus'.placeAt ⟨i, hi⟩).covers b = (bus.placeAt i).covers b := by
  rw [getElem_of_taken hplaces]
  split_ifs
  · exact covers_poke _ a b v
  · rfl

/-- A bus of chips is one still. -/
theorem OfChips.taken {j : ℕ} (h : bus.OfChips)
    (hplaces : bus'.places = bus.places.modify j (·.poke a v))
    (hnext : bus'.nextFree = bus.nextFree) : bus'.OfChips := by
  have hsize : bus'.places.size = bus.places.size := by rw [hplaces, Array.size_modify]
  refine ⟨fun place hplace => ?_, fun b => ?_⟩
  · obtain ⟨i, hi', rfl⟩ := Array.getElem_of_mem hplace
    have hi : i < bus.places.size := hsize ▸ hi'
    obtain ⟨chip, name, contents, hdevice⟩ := h.device ⟨i, hi⟩
    have hget := getElem_of_taken hplaces ⟨i, hi⟩ hi'
    rw [show bus'.places[i] = _ from hget]
    split_ifs
    · exact ⟨chip, name, _, by rw [poke_eq, hdevice, Chip.poke_holding]⟩
    · exact ⟨chip, name, contents, hdevice⟩
  · -- the sizes are what they were, so every address still has the device it had
    rw [find?_congr hsize fun k hk hk' => covers_of_taken hplaces ⟨k, hk⟩ hk', hnext,
      Option.map_eq_none_iff]
    exact h.find?_eq_none_iff b

/-- The byte is seen at its own address and at no other. -/
theorem Answers.taken {j : Fin bus.places.size}
    (hplaces : bus'.places = bus.places.modify j (·.poke a v)) (hj : bus.find? a = some j)
    (hb : bus.Answers b chip w) : bus'.Answers b chip (if a = b then v else w) := by
  obtain ⟨i, name, contents, hfind, hdevice, hget⟩ := hb
  have hsize : bus'.places.size = bus.places.size := by rw [hplaces, Array.size_modify]
  have hi : i.val < bus'.places.size := hsize.symm ▸ i.isLt
  have hfind' : bus'.find? b = some ⟨i, hi⟩ := by
    rw [find?_congr hsize fun k hk hk' => covers_of_taken hplaces ⟨k, hk⟩ hk', hfind]
    rfl
  have hplace := getElem_of_taken hplaces i hi
  by_cases hji : j.val = i.val
  · -- the two addresses lie in the same chip, and are the same if their offsets are
    obtain rfl : j = i := Fin.ext hji
    rw [if_pos rfl] at hplace
    have hsame := Place.offset_inj (covers_of_find? hj) (covers_of_find? hfind)
    refine ⟨⟨j, hi⟩, name, contents.setIfInBounds ((bus.placeAt j).offset a) v, hfind', ?_, ?_⟩
    · rw [hplace, poke_eq, hdevice, Chip.poke_holding]
    · have hoffset : (bus'.placeAt ⟨j, hi⟩).offset b = (bus.placeAt j).offset b := by
        rw [hplace]
        rfl
      have hlt : (bus.placeAt j).offset b < contents.size :=
        (Array.getElem?_eq_some_iff.mp hget).1
      rw [hoffset, Array.getElem?_setIfInBounds]
      simp only [hsame]
      split_ifs with hab hlt'
      · rfl
      · exact absurd (hsame.mpr hab ▸ hlt) hlt'
      · exact hget
  · -- the other chips are not touched
    rw [if_neg hji] at hplace
    have hab : a ≠ b := by
      rintro rfl
      exact hji (congrArg Fin.val (Option.some.inj (hj.symm.trans hfind)))
    rw [if_neg hab]
    refine ⟨⟨i, hi⟩, name, contents, hfind', ?_, ?_⟩
    · rw [hplace]
      exact hdevice
    · rw [hplace]
      exact hget

/-- Giving a byte to a bus of chips leaves a bus of chips. -/
theorem Puts.ofChips (h : Puts takes a v bus bus') (hbus : bus.OfChips) : bus'.OfChips := by
  cases hfind : bus.find? a with
  | none => exact hbus.congr ⟨h.missed hfind, h.nextFree_eq⟩
  | some i =>
    cases htakes : takes (bus.placeAt i).device.kind with
    | true => exact hbus.taken (h.taken i hfind htakes) h.nextFree_eq
    | false => exact hbus.congr ⟨h.refused i hfind htakes, h.nextFree_eq⟩

/-- **One byte.** An address shows the byte that it is given, if its chip takes the byte, and all
other addresses show what they did. -/
theorem Puts.answers (h : Puts takes a v bus bus') (hb : bus.Answers b chip w) :
    bus'.Answers b chip (if takes chip.kind = true ∧ a = b then v else w) := by
  cases hfind : bus.find? a with
  -- nobody has the address, so it is not `b`
  | none =>
    obtain ⟨i, -, -, hi, -⟩ := id hb
    have hab : ¬(takes chip.kind = true ∧ a = b) := by
      rintro ⟨-, rfl⟩
      exact absurd (hfind.symm.trans hi) (by simp)
    rw [if_neg hab]
    exact hb.congr ⟨h.missed hfind, h.nextFree_eq⟩
  | some j =>
    -- if the address is `b`, then the device is the chip that answers for `b`
    have hkind : a = b → (bus.placeAt j).device.kind = chip.kind := by
      rintro rfl
      exact hb.kind_eq hfind
    cases htakes : takes (bus.placeAt j).device.kind with
    | true =>
      -- the chip there takes the byte, and it may be the one that answers
      have htaken := hb.taken (h.taken j hfind htakes) hfind
      by_cases hab : a = b
      · rw [if_pos hab] at htaken
        rwa [if_pos ⟨hkind hab ▸ htakes, hab⟩]
      · rw [if_neg hab] at htaken
        rwa [if_neg fun hand => hab hand.2]
    -- the chip there refuses, as the one that answers would
    | false =>
      have hab : ¬(takes chip.kind = true ∧ a = b) := by
        rintro ⟨hchip, hab⟩
        exact absurd (htakes.symm.trans ((congrArg takes (hkind hab)).trans hchip)) (by simp)
      rw [if_neg hab]
      exact hb.congr ⟨h.refused j hfind htakes, h.nextFree_eq⟩

/-! ### Requests one by one -/

/-- Where nothing is attached, the byte is lost. -/
theorem puts_of_none (ha : bus.find? a = none) : Puts takes a v bus bus where
  nextFree_eq := rfl
  missed _ := rfl
  taken _ hi := absurd (ha.symm.trans hi) (by simp)
  refused _ hi := absurd (ha.symm.trans hi) (by simp)

/-- A device of the right kind takes it. -/
theorem puts_of_taken {i : Fin bus.places.size} (ha : bus.find? a = some i)
    (htakes : takes (bus.placeAt i).device.kind = true) :
    Puts takes a v bus (bus.modifyPlace i (·.poke a v)) where
  nextFree_eq := rfl
  missed hnone := absurd (hnone.symm.trans ha) (by simp)
  taken j hj _ := by
    obtain rfl : i = j := Option.some.inj (ha.symm.trans hj)
    rfl
  refused j hj hrefuses := by
    obtain rfl : i = j := Option.some.inj (ha.symm.trans hj)
    exact absurd (htakes.symm.trans hrefuses) (by simp)

/-- Any other device refuses it, with a message. -/
theorem puts_of_refused {i : Fin bus.places.size} (ha : bus.find? a = some i)
    (hrefuses : takes (bus.placeAt i).device.kind = false) (message : Message) :
    Puts takes a v bus (bus.note message) where
  nextFree_eq := rfl
  missed _ := rfl
  taken j hj htakes := by
    obtain rfl : i = j := Option.some.inj (ha.symm.trans hj)
    exact absurd (htakes.symm.trans hrefuses) (by simp)
  refused _ _ _ := rfl

/-- The processor writes to RAM and not to ROM. -/
theorem OfChips.puts_write (h : bus.OfChips) (a : Word) (v : Byte) :
    Puts takesBytes a v bus (bus.write a v) := by
  unfold Bus.write
  cases hfind : bus.find? a with
  | none => exact puts_of_none hfind
  | some i =>
    obtain ⟨chip, name, contents, hdevice⟩ := h.device i
    dsimp only
    unfold writeAt
    rw [hdevice]
    -- RAM takes it, ROM does not
    cases chip with
    | ram => exact puts_of_taken hfind (by rw [hdevice]; rfl)
    | rom => exact puts_of_refused hfind (by rw [hdevice]; rfl) _

/-- A chip that is reached by its own bytes has one for each of its addresses. -/
theorem OfChips.pokeAt_eq (h : bus.OfChips) {i : Fin bus.places.size} (ha : bus.find? a = some i)
    (v : Byte) : bus.pokeAt i a v = (true, bus.modifyPlace i (·.poke a v)) := by
  obtain ⟨chip, name, contents, hdevice⟩ := h.device i
  have hlt := Place.offset_lt (covers_of_find? ha)
  rw [hdevice, Chip.size_holding] at hlt
  -- a chip holds its bytes itself, and has one for each of its addresses
  have hcontents : (bus.placeAt i).device.contents? = some contents := by
    rw [hdevice]
    cases chip <;> rfl
  unfold pokeAt
  rw [hcontents]
  dsimp only
  rw [decide_eq_true hlt]

/-- So does a debugger, which is told whether the byte was taken. -/
theorem OfChips.puts_debugWrite (h : bus.OfChips) (a : Word) (v : Byte) :
    Puts takesBytes a v bus (bus.debugWrite a v).2 ∧ ((bus.debugWrite a v).1 = true ↔
      ∃ i, bus.find? a = some i ∧ takesBytes (bus.placeAt i).device.kind = true) := by
  unfold Bus.debugWrite
  cases hfind : bus.find? a with
  | none => exact ⟨puts_of_none hfind, by simp⟩
  | some i =>
    dsimp only
    split_ifs with hrom
    · -- ROM refuses, with a message
      have hrefuses : takesBytes (bus.placeAt i).device.kind = false := by
        rw [hrom]
        rfl
      exact ⟨puts_of_refused hfind hrefuses _, by simpa using hrefuses⟩
    · -- a chip that is no ROM is RAM
      have htakes : takesBytes (bus.placeAt i).device.kind = true := by
        obtain ⟨chip, name, contents, hdevice⟩ := h.device i
        rw [hdevice, Chip.kind_holding] at hrom ⊢
        cases chip with
        | ram => rfl
        | rom => exact absurd rfl hrom
      rw [h.pokeAt_eq hfind]
      exact ⟨puts_of_taken hfind htakes, by simpa using htakes⟩

/-- The loader stores to both. -/
theorem OfChips.puts_loaderWrite (h : bus.OfChips) (a : Word) (v : Byte) :
    Puts (fun _ => true) a v bus (bus.loaderWrite a v).2 ∧
      ((bus.loaderWrite a v).1 = true ↔ a.toNat < bus.nextFree) := by
  unfold Bus.loaderWrite
  cases hfind : bus.find? a with
  -- nothing attached there: the loader is told so
  | none =>
    have hle := (h.find?_eq_none_iff a).mp hfind
    exact ⟨puts_of_none hfind, by simp [hle]⟩
  | some i =>
    have hlt := h.lt_nextFree hfind
    dsimp only
    rw [h.pokeAt_eq hfind]
    exact ⟨puts_of_taken hfind rfl, by simp [hlt]⟩

end Answers

/-! ### Stores in a row -/

/-- From `bus` to `bus'` bytes were given one after the other, and nothing else happened to the
devices. -/
inductive Stores (takes : DeviceKind → Bool) : List (Word × Byte) → Bus → Bus → Prop where
  | done {bus bus' : Bus} (same : SameDevices bus bus') : Stores takes [] bus bus'
  | put {a : Word} {v : Byte} {stores : List (Word × Byte)} {bus bus₁ bus' : Bus}
    (first : Puts takes a v bus bus₁) (rest : Stores takes stores bus₁ bus') :
    Stores takes ((a, v) :: stores) bus bus'

section Stores

variable {bus bus' : Bus} {a : Word} {chip : Chip} {v : Byte} {takes : DeviceKind → Bool}
  {stores : List (Word × Byte)}

/-- Any number of stores leaves a bus of chips. -/
theorem Stores.ofChips (h : Stores takes stores bus bus') (hbus : bus.OfChips) :
    bus'.OfChips := by
  induction h with
  | done same => exact hbus.congr same
  | put first _ ih => exact ih (first.ofChips hbus)

theorem Stores.nextFree_eq (h : Stores takes stores bus bus') :
    bus'.nextFree = bus.nextFree := by
  induction h with
  | done same => exact same.nextFree_eq
  | put first _ ih => exact ih.trans first.nextFree_eq

/-- After the stores an address shows the last byte that was meant for it, if its chip takes bytes,
and else what it has shown before. -/
theorem Stores.answers (h : Stores takes stores bus bus') (hbus : bus.Answers a chip v) :
    bus'.Answers a chip
      ((lastValue? (byteFor? a) (if takes chip.kind then stores else [])).getD v) := by
  -- what the first store leaves is the byte from before for the stores after it
  induction h generalizing v with
  | done same =>
    rw [ite_self]
    exact hbus.congr same
  | @put b w stores _ _ _ first _ ih =>
    have hrest := ih (first.answers hbus)
    cases htakes : takes chip.kind with
    | false =>
      rw [htakes] at hrest
      simpa using hrest
    | true =>
      -- if the chip takes bytes, the first store may be to the address
      have hfirst : (byteFor? a (b, w)).getD v = if b = a then w else v := by
        unfold byteFor?
        split_ifs <;> rfl
      rw [htakes, if_pos rfl] at hrest
      rw [if_pos rfl, lastValue?_cons, Option.getD_or, hfirst]
      simpa using hrest

end Stores

end Bus

end Machine6809
