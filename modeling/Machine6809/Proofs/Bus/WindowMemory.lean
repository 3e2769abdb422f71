import Machine6809.Bus.Basic
import Machine6809.Proofs.Bus.Places
import Machine6809.Proofs.Mmu.Cells

/-!
# The windows as memory

On the bus the two windows lie side by side, as one device. An address of that device stands for a
cell (`Bus.cell?`), and with respect to the cells the addresses are ordinary memory. What is written
to one address is read back from every address with the same cell, unless the cell is protected,
and all other addresses read as before (`Bus.ReadsBack`). Nothing else changes (`Bus.WritesOnly`).
An address without a cell reads as zero, and an access to it is reported in the error register
(`Bus.Misses`).

All of this follows from what a write does to the nodes and to the bytes of the windows
(`Windowed.write`), and from what a read takes from them (`Windowed.read`).
-/

namespace Machine6809

namespace Place

/-- The window that an address belongs to. -/
def window (place : Place) (address : Word) : Fin windowCount :=
  ⟨place.offset address / windowSize % windowCount, Nat.mod_lt _ (by decide)⟩

/-- The offset of an address in its window. -/
def windowOffset (place : Place) (address : Word) : Fin windowSize :=
  ⟨place.offset address % windowSize, Nat.mod_lt _ (by decide)⟩

/-- The place of windows with other bytes behind them. -/
def withDefaults (place : Place) (defaults : Array Byte) : Place :=
  { place with device := .windows defaults }

/-- A default that is stored replaces the one at its offset. -/
theorem pokeDefault_eq {place : Place} {defaults : Array Byte}
    (hdevice : place.device = .windows defaults) (a : Word) (v : Byte) : place.pokeDefault a v
      = place.withDefaults (defaults.setIfInBounds (place.offset a) v) := by
  obtain ⟨base, device⟩ := place
  subst hdevice
  rfl

end Place

namespace Bus

/-- The cell that an address of the windows stands for. -/
def cell? (bus : Bus) (place : Place) (address : Word) : Option (Cell poolNodes) :=
  bus.mmu.cell? (place.window address) (place.windowOffset address)

/-- What is read at `b` after `v` has been written at `a`. -/
structure ReadsBack (bus : Bus) (place : Place) (a b : Word) (v : Byte) : Prop where
  written : ∀ c, bus.cell? place a = some c → bus.cell? place b = some c →
    ¬c.Protected bus.mmu.pool → ((bus.write a v).read b).1 = v
  missing : bus.cell? place b = none → ((bus.write a v).read b).1 = 0
  kept : (∀ c, bus.cell? place a = some c → bus.cell? place b = some c →
    c.Protected bus.mmu.pool) → ((bus.write a v).read b).1 = (bus.read b).1

/-- From `bus` to `bus'` nothing has changed but the byte in the cell `c`. In particular the bytes
of a window that shows a chain are what they were. -/
structure WritesOnly (bus bus' : Bus) (i : Fin bus.places.size) (c : Option (Cell poolNodes))
    (defaults defaults' : Array Byte) : Prop where
  pool : bus.mmu.pool.ChangedAt bus'.mmu.pool c
  windows_eq : bus'.mmu.windows = bus.mmu.windows
  places_eq : bus'.places = bus.places.set i ((bus.placeAt i).withDefaults defaults') i.isLt
  size_eq : defaults'.size = defaults.size
  default_eq : ∀ (w : Fin windowCount) (o : Fin windowSize), c ≠ some (.default w o) →
    defaults'.getD (w * windowSize + o) 0 = defaults.getD (w * windowSize + o) 0
  mapped_eq : ∀ (w : Fin windowCount) h, bus.mmu.window? w = some h → ∀ o : Fin windowSize,
    defaults'.getD (w * windowSize + o) 0 = defaults.getD (w * windowSize + o) 0

/-- From `bus` to `bus'` an access has found no cell. -/
structure Misses (bus bus' : Bus) : Prop where
  pool_eq : bus'.mmu.pool = bus.mmu.pool
  windows_eq : bus'.mmu.windows = bus.mmu.windows
  places_eq : bus'.places = bus.places
  error_eq : bus'.mmu.error = .bank
  error_register : bus'.mmu.readRegister 0x0F = MmuError.bank.code

/-- At place `i` the bus has the windows of a unit that is sound. -/
structure Windowed (bus : Bus) (i : Fin bus.places.size) (defaults : Array Byte) : Prop where
  chained : ∃ S, bus.mmu.pool.Chained S
  anchored : bus.mmu.Anchored
  device_eq : (bus.placeAt i).device = .windows defaults
  size_eq : defaults.size = windowCount * windowSize

section Access

variable {bus bus' : Bus} {m : Mmu poolNodes} {i : Fin bus.places.size} {place : Place}
  {defaults : Array Byte} {a b : Word}

/-! ### Addresses -/

/-- An address of the windows is found in one of them. -/
theorem locate_eq (hdevice : place.device = .windows defaults) (ha : place.covers a = true) :
    locate (place.offset a) = (↑(place.window a), UInt16.ofNat (place.windowOffset a)) ∧
      place.offset a = place.window a * windowSize + place.windowOffset a := by
  have hlt := Place.offset_lt ha
  rw [hdevice] at hlt
  -- the offset is within the windows, so there is a window for it
  have hwindow : (place.window a : ℕ) = place.offset a / windowSize :=
    Nat.mod_eq_of_lt (Nat.div_lt_of_lt_mul (by rwa [Nat.mul_comm]))
  refine ⟨?_, ?_⟩
  · unfold locate
    rw [hwindow]
    rfl
  · rw [hwindow]
    exact (Nat.div_add_mod' _ _).symm

/-! ### Reading and writing -/

/-- A read in the windows asks the unit, and shows a default if it answers nothing. -/
theorem read_eq (hdevice : (bus.placeAt i).device = .windows defaults) (hb : bus.find? b = some i) :
    bus.read b = (let (shown, after) := bus.onMmu (·.readWindow ((bus.placeAt i).window b)
        (UInt16.ofNat ((bus.placeAt i).windowOffset b)))
      (shown.getD (defaults.getD ((bus.placeAt i).offset b) 0), after)) := by
  unfold read readAt
  rw [hb]
  dsimp only
  rw [hdevice, (locate_eq hdevice (covers_of_find? hb)).1]

/-- So it shows the byte of the cell behind the address. -/
theorem Windowed.read (hw : bus.Windowed i defaults) (hb : bus.find? b = some i) :
    (bus.read b).1 = Cell.value defaults bus.mmu.pool (bus.cell? (bus.placeAt i) b) := by
  obtain ⟨S, hS⟩ := hw.chained
  rw [read_eq hw.device_eq hb, (locate_eq hw.device_eq (covers_of_find? hb)).2]
  exact Mmu.readWindow_value hS hw.anchored _ _ defaults

theorem onMmu_eq {α : Type} (f : Mmu poolNodes → α × Mmu poolNodes) : bus.onMmu f
    = ((f bus.mmu).1, { bus with
        mmu := (f bus.mmu).2.drain.2, journal := bus.journal ++ (f bus.mmu).2.journal }) := rfl

/-- A write is one through the window. If that shows nothing, the byte goes behind it. -/
theorem write_eq (hdevice : (bus.placeAt i).device = .windows defaults) (ha : bus.find? a = some i)
    (v : Byte) {x : Bool × Mmu poolNodes}
    (hx : bus.mmu.writeWindow ((bus.placeAt i).window a)
      (UInt16.ofNat ((bus.placeAt i).windowOffset a)) v = x) :
    (bus.write a v).mmu = x.2.drain.2 ∧ (bus.write a v).places
      = if x.1 then bus.places else bus.places.modify i (·.pokeDefault a v) := by
  unfold write writeAt
  rw [ha]
  dsimp only
  rw [hdevice, (locate_eq hdevice (covers_of_find? ha)).1]
  dsimp only
  rw [onMmu_eq, ← hx]
  split_ifs <;> exact ⟨rfl, rfl⟩

theorem set_eq_self (hdevice : (bus.placeAt i).device = .windows defaults) :
    bus.places.set i ((bus.placeAt i).withDefaults defaults) i.isLt = bus.places := by
  unfold Place.withDefaults
  rw [← hdevice]
  exact Array.set_getElem_self i.isLt

/-- **The step of the windows.** A write stores to the cell. -/
theorem Windowed.write (hw : bus.Windowed i defaults) (ha : bus.find? a = some i) (v : Byte) :
    (bus.write a v).mmu.pool
        = Cell.storePool bus.mmu.pool v (bus.cell? (bus.placeAt i) a) ∧
      (bus.write a v).mmu.windows = bus.mmu.windows ∧
      (bus.write a v).places = bus.places.set i ((bus.placeAt i).withDefaults
        (Cell.storeDefaults defaults v (bus.cell? (bus.placeAt i) a))) i.isLt := by
  obtain ⟨S, hS⟩ := hw.chained
  have hx := Mmu.writeWindow_eq hS hw.anchored ((bus.placeAt i).window a)
    ((bus.placeAt i).windowOffset a) v
  obtain ⟨hpool, hwindows⟩ := Mmu.writeWindow_pool hS hw.anchored ((bus.placeAt i).window a)
    ((bus.placeAt i).windowOffset a) v
  obtain ⟨hmmu, -⟩ := write_eq hw.device_eq ha v rfl
  -- the pool, the windows, and the defaults of the device
  refine ⟨?_, ?_, ?_⟩
  · rw [hmmu]
    exact hpool
  · rw [hmmu]
    exact hwindows
  rw [(write_eq hw.device_eq ha v hx).2]
  unfold cell?
  rcases hcell : bus.mmu.cell? ((bus.placeAt i).window a) ((bus.placeAt i).windowOffset a)
    with - | ⟨w, o⟩ | ⟨j, k⟩
  · exact (set_eq_self hw.device_eq).symm
  · -- the byte goes behind the window
    obtain ⟨-, rfl, rfl⟩ := Mmu.window?_of_cell?_default hcell
    dsimp only
    rw [if_neg Bool.false_ne_true, modify_eq_set]
    refine congrArg (bus.places.set i · i.isLt) ?_
    rw [Place.pokeDefault_eq hw.device_eq, (locate_eq hw.device_eq (covers_of_find? ha)).2]
    rfl
  · exact (set_eq_self hw.device_eq).symm

/-- After a write the windows of a sound unit are where they were. -/
theorem Windowed.windowed_write (hw : bus.Windowed i defaults) (ha : bus.find? a = some i)
    (v : Byte) (hi : i.val < (bus.write a v).places.size) :
    (bus.write a v).Windowed ⟨i, hi⟩
      (Cell.storeDefaults defaults v (bus.cell? (bus.placeAt i) a)) := by
  obtain ⟨S, hS⟩ := hw.chained
  obtain ⟨hpool, -, hplaces⟩ := hw.write ha v
  have hanchored := Mmu.anchored_serve hS hw.anchored
    (.writeWindow ((bus.placeAt i).window a) (UInt16.ofNat ((bus.placeAt i).windowOffset a)) v)
  refine ⟨⟨S, ?_⟩, ?_, ?_, ?_⟩
  · -- the chains, the windows, the device and its size
    rw [hpool]
    exact Cell.chained_storePool hS v _
  · rw [(write_eq hw.device_eq ha v rfl).1]
    exact hanchored
  · simp only [Fin.getElem_fin, hplaces, Array.getElem_set_self]
    rfl
  · exact (Cell.size_storeDefaults defaults v _).trans hw.size_eq

/-- What is read after a write is in the cell of the second address after a byte has been stored to
that of the first. -/
theorem Windowed.read_write (hw : bus.Windowed i defaults) (ha : bus.find? a = some i)
    (hb : bus.find? b = some i) (v : Byte) : ((bus.write a v).read b).1
      = Cell.value (Cell.storeDefaults defaults v (bus.cell? (bus.placeAt i) a))
        (Cell.storePool bus.mmu.pool v (bus.cell? (bus.placeAt i) a))
        (bus.cell? (bus.placeAt i) b) := by
  obtain ⟨S, hS⟩ := hw.chained
  obtain ⟨hpool, -, hplaces⟩ := hw.write ha v
  have hi : i.val < (bus.write a v).places.size := by
    rw [hplaces, Array.size_set]
    exact i.isLt
  -- the address is found at the same place as before
  have hb' : (bus.write a v).find? b = some ⟨i, hi⟩ := by
    refine find?_set ?_ hplaces hi hb
    unfold Place.covers
    rw [hw.device_eq]
    rfl
  -- neither the offset nor the chains have changed
  have hplace : ((bus.write a v).placeAt ⟨i, hi⟩) = (bus.placeAt i).withDefaults
      (Cell.storeDefaults defaults v (bus.cell? (bus.placeAt i) a)) := by
    simp only [Fin.getElem_fin, hplaces, Array.getElem_set_self]
  have hcell : (bus.write a v).cell? ((bus.write a v).placeAt ⟨i, hi⟩) b
      = bus.cell? (bus.placeAt i) b := by
    rw [hplace]
    unfold cell?
    rw [(write_eq hw.device_eq ha v rfl).1]
    exact Mmu.cell?_writeWindow hS hw.anchored _ _ v _ _
  rw [(hw.windowed_write ha v hi).read hb', hpool, hcell]

/-- A byte written in the windows is read back wherever its cell is shown. -/
theorem Windowed.readsBack (hw : bus.Windowed i defaults) (ha : bus.find? a = some i)
    (hb : bus.find? b = some i) (v : Byte) : bus.ReadsBack (bus.placeAt i) a b v where
  -- the same cell
  written := by
    intro c hca hcb hp
    rw [hw.read_write ha hb, hca, hcb]
    exact Cell.value_store_self hw.size_eq hp
  -- no cell
  missing := by
    intro hcb
    rw [hw.read_write ha hb, hcb]
    rfl
  kept := by
    intro hprotected
    rw [hw.read_write ha hb, hw.read hb]
    by_cases hsame : bus.cell? (bus.placeAt i) b = bus.cell? (bus.placeAt i) a
    · -- the same cell, which is protected, or none at all
      cases hca : bus.cell? (bus.placeAt i) a with
      | none =>
        rw [hsame, hca]
        rfl
      | some c => exact Cell.value_store_of_protected (hprotected c hca (hsame.trans hca))
    · exact Cell.value_store_of_ne hw.size_eq hsame

/-- And no other cell changes. -/
theorem Windowed.writesOnly (hw : bus.Windowed i defaults) (ha : bus.find? a = some i) (v : Byte) :
    bus.WritesOnly (bus.write a v) i (bus.cell? (bus.placeAt i) a) defaults
      (Cell.storeDefaults defaults v (bus.cell? (bus.placeAt i) a)) := by
  obtain ⟨hpool, hwindows, hplaces⟩ := hw.write ha v
  refine
    { pool := ?_
      windows_eq := hwindows
      places_eq := hplaces
      size_eq := Cell.size_storeDefaults defaults v _
      default_eq := fun w o hne => Cell.getD_storeDefaults_of_ne hw.size_eq hne
      mapped_eq := fun w h hshown o => ?_ }
  · rw [hpool]
    exact Cell.changedAt_storePool
  · refine Cell.getD_storeDefaults_of_ne hw.size_eq fun hcell => ?_
    -- the cell is the window's own only if that shows nothing
    obtain ⟨hnone, rfl, -⟩ := Mmu.window?_of_cell?_default hcell
    exact absurd (hnone.symm.trans hshown) (by simp)

/-- Without a cell, a write is only reported. -/
theorem Windowed.misses_write (hw : bus.Windowed i defaults) (ha : bus.find? a = some i)
    (hcell : bus.cell? (bus.placeAt i) a = none) (v : Byte) : bus.Misses (bus.write a v) := by
  obtain ⟨S, hS⟩ := hw.chained
  have hx := Mmu.writeWindow_eq hS hw.anchored ((bus.placeAt i).window a)
    ((bus.placeAt i).windowOffset a) v
  -- no cell is behind the address, so the unit has reported an error and nothing else
  unfold cell? at hcell
  rw [hcell] at hx
  obtain ⟨hmmu, hplaces⟩ := write_eq hw.device_eq ha v hx
  refine ⟨?_, ?_, hplaces, ?_, ?_⟩
  all_goals
    rw [hmmu]
    rfl

/-- Without a cell, a read is only reported. -/
theorem Windowed.misses_read (hw : bus.Windowed i defaults) (ha : bus.find? a = some i)
    (hcell : bus.cell? (bus.placeAt i) a = none) : bus.Misses (bus.read a).2 := by
  obtain ⟨S, hS⟩ := hw.chained
  have hx := Mmu.readWindow_eq hS hw.anchored ((bus.placeAt i).window a)
    ((bus.placeAt i).windowOffset a)
  unfold cell? at hcell
  rw [hcell] at hx
  -- reading asks the unit in the same way
  have hafter : (bus.read a).2 = { bus with
      mmu := (bus.mmu.fail .bank).drain.2
      journal := bus.journal ++ (bus.mmu.fail .bank).journal } := by
    rw [read_eq hw.device_eq ha, onMmu_eq, hx]
  rw [hafter]
  exact ⟨rfl, rfl, rfl, rfl, rfl⟩

/-- **The windows are memory over cells.** The unit on the bus may be any that requests lead to, up
to messages, which the bus takes from it. -/
theorem windows_are_memory (hm : m.Reachable) (hbus : bus.mmu.drain.2 = m.drain.2)
    (hdevice : (bus.placeAt i).device = .windows defaults)
    (hsize : defaults.size = windowCount * windowSize)
    (ha : bus.find? a = some i) (hb : bus.find? b = some i) (v : Byte) :
    bus.ReadsBack (bus.placeAt i) a b v ∧ bus.mmu.CellsApart ∧
      (∃ defaults', bus.WritesOnly (bus.write a v) i (bus.cell? (bus.placeAt i) a)
        defaults defaults') ∧
      (bus.cell? (bus.placeAt i) a = none →
        bus.Misses (bus.write a v) ∧ bus.Misses (bus.read a).2 ∧ (bus.read a).1 = 0) := by
  have hn : poolNodes < 65536 := by decide
  -- taking messages from the unit does not change what it is
  have hpool : bus.mmu.pool = m.pool := by
    change bus.mmu.drain.2.pool = m.drain.2.pool
    rw [hbus]
  have hwindows : bus.mmu.windows = m.windows := by
    change bus.mmu.drain.2.windows = m.drain.2.windows
    rw [hbus]
  obtain ⟨S, hS⟩ := hm.exists_chained hn
  rw [← hpool] at hS
  -- the bus has the pool and the windows of the unit that was reached
  have hanchored : bus.mmu.Anchored := by
    intro w h hw
    rw [Mmu.window?_congr hwindows] at hw
    rw [hpool]
    exact hm.anchored hn w h hw
  have hw : bus.Windowed i defaults := ⟨⟨S, hS⟩, hanchored, hdevice, hsize⟩
  refine ⟨hw.readsBack ha hb v, Mmu.cellsApart hS hanchored, ⟨_, hw.writesOnly ha v⟩, ?_⟩
  intro hcell
  refine ⟨hw.misses_write ha hcell v, hw.misses_read ha hcell, ?_⟩
  rw [hw.read ha, hcell]
  rfl

/-- A chain of two nodes, shown in both windows. -/
def sharedRequests : List Mmu.Request :=
  [.setArg1 2, .command Command.alloc.code, .select 0 (some 0), .select 1 (some 0)]

/-- A bus with the two windows on that chain. -/
def sharedBus : Bus :=
  { places := #[⟨0, Device.blankWindows⟩], nextFree := windowCount * windowSize
    mmu := (Mmu.initial poolNodes_pos).serveAll sharedRequests, journal := #[] }

/-- The windows are the first device of this bus. -/
theorem find?_sharedBus {address : Word} (hlt : address.toNat < windowCount * windowSize) :
    sharedBus.find? address = some ⟨0, by decide⟩ := by
  have hcovers : (Place.mk 0 Device.blankWindows).covers address = true := by
    unfold Place.covers
    rw [Bool.and_eq_true, decide_eq_true_eq, decide_eq_true_eq, Nat.zero_add]
    exact ⟨Nat.zero_le _, hlt⟩
  exact Array.findFinIdx?_eq_some_iff.mpr ⟨hcovers, fun j hj => absurd hj (Nat.not_lt_zero _)⟩

/-- A byte that is written through the first window is read through the second. Behind the chain
there is nothing to be read. -/
theorem windows_are_memory_sample : ((sharedBus.write 0x21 7).read 0x2021).1 = 7 ∧
    ((sharedBus.write 0x21 7).read 0x2040).1 = 0 := by
  have hm : sharedBus.mmu.Reachable := ⟨poolNodes_pos, sharedRequests, fun _ _ => trivial, rfl⟩
  have hsize : (Array.replicate (windowCount * windowSize) (0 : Byte)).size
      = windowCount * windowSize := Array.size_replicate
  have ha : sharedBus.find? 0x21 = some ⟨0, by decide⟩ := find?_sharedBus (by decide)
  -- the same byte seen through the other window, and a byte past the end of the chain
  have hback := (windows_are_memory hm rfl rfl hsize ha
    (find?_sharedBus (show (0x2021 : Word).toNat < _ by decide)) 7).1
  have hzero := (windows_are_memory hm rfl rfl hsize ha
    (find?_sharedBus (show (0x2040 : Word).toNat < _ by decide)) 7).1
  refine ⟨hback.written (.payload ⟨1, by decide⟩ ⟨1, by decide⟩) ?_ ?_ ?_, hzero.missing ?_⟩
  · decide +kernel
  · decide +kernel
  · rw [Cell.protected_payload_iff]
    decide +kernel
  · decide +kernel

end Access

end Bus

end Machine6809
