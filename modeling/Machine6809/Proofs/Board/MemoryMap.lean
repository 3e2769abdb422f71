import Machine6809.Board
import Machine6809.Proofs.Bus.Tiling
import Machine6809.Proofs.Machine.Simulation
import Machine6809.Proofs.Mmu.Windows
import Mathlib.Data.Nat.Notation

/-!
# The memory map of the board

The slots of the board's devices (`Board.memoryMap`) are those of a board that has just been made
(`slots_initialBus`), and since nothing that happens to a board attaches a device they stay that
way. The map decides which addresses are ROM (`exists_rom`) and where the memory management unit can
be reached.

For the processor the bus is a memory, and each of its accesses is one of the kind that spares ROM
(`lasting_accesses`). So is everything that happens to the machine, and what such accesses keep is
known of every run.
-/

namespace Machine6809

/-! ### The bus as memory -/

namespace Bus

/-- What the processor does to a bus never goes beyond accesses that spare ROM. -/
theorem lasting_accesses (bus : Bus) : Lasting (Accesses writable bus) where
  load M address h := (h.tail (accessed_read writable M address)).tail accessed_drain
  store _ address value h := (h.tail (accessed_write address value)).tail accessed_drain

/-- Whatever happens to the machine reaches the bus by accesses of the processor. -/
theorem accesses_happen (m : Machine Bus) (e : Event) :
    Accesses writable m.memory (m.happen e).memory :=
  (lasting_accesses m.memory).happen .refl e

theorem accesses_run (m : Machine Bus) (es : List Event) :
    Accesses writable m.memory (m.run es).memory :=
  (lasting_accesses m.memory).run .refl es

end Bus

namespace Board

/-! ### The map -/

/-- Where the devices of the board are. -/
def memoryMap : List Slot :=
  [⟨0x0000, "soft vectors", .ram, 0x0010⟩, ⟨0x0010, "system ram", .ram, 0x03F0⟩,
    ⟨0x0400, "video", .ram, 0x2000⟩, ⟨0x2400, "user ram", .ram, 0x8C00⟩,
    ⟨0xB000, "banked", .banked, 0x4000⟩, ⟨0xF000, "rom", .rom, 0x0E00⟩,
    ⟨0xFE00, "mmu", .mmu, 0x0040⟩, ⟨0xFE40, "hardware", .ram, 0x01B0⟩,
    ⟨0xFFF0, "vectors", .rom, 0x0010⟩]

/-- The devices are where they belong. -/
def Mapped (board : Board) : Prop := board.machine.memory.slots = memoryMap

/-- The address is one of ROM. -/
def InRom (a : Word) : Prop :=
  0xF000 ≤ a.toNat ∧ a.toNat ≤ 0xFDFF ∨ 0xFFF0 ≤ a.toNat ∧ a.toNat ≤ 0xFFFF

instance : DecidablePred InRom := fun _ => inferInstanceAs (Decidable (_ ∨ _))

/-- The address is one of the windows of the memory management unit. -/
def InWindows (a : Word) : Prop := 0xB000 ≤ a.toNat ∧ a.toNat ≤ 0xEFFF

/-- The address is one of the registers of the memory management unit. -/
def InRegisters (a : Word) : Prop := 0xFE00 ≤ a.toNat ∧ a.toNat ≤ 0xFE3F

/-- The slots of the memory map follow each other without gaps. -/
theorem tiles_memoryMap : Tiles 0 memoryMap addressSpace := by
  simp [memoryMap, Tiles, Slot.limit, addressSpace]

variable {bus : Bus} {a : Word}

/-- What belongs to a device other than ROM is no address of ROM. -/
theorem kind_of_inRom {slot : Slot} (hmem : slot ∈ memoryMap) (hcovers : slot.Covers a)
    (ha : InRom a) : slot.kind = .rom := by
  have apart : ∀ slot ∈ memoryMap, slot.kind = .rom ∨
      slot.limit ≤ 0xF000 ∨ 0xFE00 ≤ slot.base ∧ slot.limit ≤ 0xFFF0 := by decide
  obtain hrom | hapart := apart slot hmem
  · exact hrom
  · obtain ⟨hbase, hlimit⟩ := hcovers
    unfold InRom at ha
    omega

/-- Only the windows are of their kind. -/
theorem inWindows_of_kind {slot : Slot} (hmem : slot ∈ memoryMap) (hcovers : slot.Covers a)
    (hkind : slot.kind = .banked) : InWindows a := by
  have place : ∀ slot ∈ memoryMap, slot.kind = .banked →
      0xB000 ≤ slot.base ∧ slot.limit ≤ 0xF000 := by decide
  obtain ⟨hbase, hlimit⟩ := place slot hmem hkind
  exact ⟨Nat.le_trans hbase hcovers.1, Nat.le_of_lt_succ (Nat.lt_of_lt_of_le hcovers.2 hlimit)⟩

theorem inRegisters_of_kind {slot : Slot} (hmem : slot ∈ memoryMap) (hcovers : slot.Covers a)
    (hkind : slot.kind = .mmu) : InRegisters a := by
  have place : ∀ slot ∈ memoryMap, slot.kind = .mmu →
      0xFE00 ≤ slot.base ∧ slot.limit ≤ 0xFE40 := by decide
  obtain ⟨hbase, hlimit⟩ := place slot hmem hkind
  exact ⟨Nat.le_trans hbase hcovers.1, Nat.le_of_lt_succ (Nat.lt_of_lt_of_le hcovers.2 hlimit)⟩

/-- An address of ROM shows a byte that a ROM chip holds. -/
theorem answers_rom (hslots : bus.slots = memoryMap) (ha : InRom a) :
    bus.Answers a .rom (bus.read a).1 := by
  -- the slots tile all addresses, so there is a device, and it is of the kind that its slot has
  have tiles : Tiles 0 bus.slots addressSpace := hslots ▸ tiles_memoryMap
  obtain ⟨i, hfind⟩ := Bus.exists_find? tiles a.toNat_lt
  have hcovers := Bus.covers_of_find? hfind
  have hkind : (bus.placeAt i).device.kind = .rom :=
    kind_of_inRom (hslots ▸ Bus.slot_mem_slots bus i) ((Place.covers_iff _ a).mp hcovers) ha
  have hlt := Place.offset_lt hcovers
  cases hdevice : (bus.placeAt i).device with
  | rom name contents =>
    rw [hdevice] at hlt
    have answers : bus.Answers a .rom contents[(bus.placeAt i).offset a] :=
      ⟨i, name, contents, hfind, hdevice, Array.getElem?_eq_getElem hlt⟩
    rw [answers.read]
    exact answers
  | ram | registers | windows | hardware =>
    rw [hdevice] at hkind
    cases hkind

/-! ### What happens to a board -/

/-- What can be done to a board that is neither running nor being looked at. -/
inductive Call where
  /-- Something happens to the machine. -/
  | machine (e : Event)
  | loadImage (text : String)
  | signal (event : BusEvent)
  | reset

/-- The board after a call. -/
def call (board : Board) : Call → Board
  | .machine e => { board with machine := board.machine.happen e }
  | .loadImage text => (board.loadImage text).2
  | .signal event => board.signal event
  | .reset => board.reset

/-- The board after calls one after the other. -/
def callAll (board : Board) (calls : List Call) : Board := calls.foldl call board

/-- What is done to the bus of a board, its messages being taken from it. -/
theorem memory_onBus {α : Type} (board : Board) (f : Bus → α × Bus) :
    (board.onBus f).2.machine.memory = (f board.machine.memory).2.drain.2 := rfl

/-- Telling the devices something reaches the bus by accesses. -/
theorem accesses_signal (takes : DeviceKind → Bool) (board : Board) (event : BusEvent) :
    Bus.Accesses takes board.machine.memory (board.signal event).machine.memory :=
  (Bus.accesses_signal takes board.machine.memory event).tail Bus.accessed_drain

/-- The processor is reset after the devices. -/
theorem machine_reset (board : Board) :
    board.reset.machine.memory = ((board.signal .reset).machine.happen .reset).memory ∧
      board.reset.machine.cpu.registers
        = ((board.signal .reset).machine.happen .reset).cpu.registers := ⟨rfl, rfl⟩

theorem accesses_reset (board : Board) :
    Bus.Accesses Bus.writable board.machine.memory board.reset.machine.memory :=
  (machine_reset board).1 ▸
    (accesses_signal Bus.writable board .reset).trans
      (Bus.accesses_happen (board.signal .reset).machine .reset)

/-- Only the loader changes ROM. -/
theorem accesses_call (board : Board) (c : Call) :
    Bus.Accesses (fun _ => true) board.machine.memory (board.call c).machine.memory := by
  cases c with
  | machine e => exact (Bus.accesses_happen board.machine e).mono fun _ _ => rfl
  | loadImage text =>
    rw [call, loadImage, memory_onBus]
    exact (Bus.accesses_loadImage board.machine.memory text).tail Bus.accessed_drain
  | signal event => exact accesses_signal _ board event
  | reset => exact (accesses_reset board).mono fun _ _ => rfl

/-- So do any calls from outside, which may load ROM. -/
theorem accesses_callAll (board : Board) (calls : List Call) :
    Bus.Accesses (fun _ => true) board.machine.memory (board.callAll calls).machine.memory := by
  induction calls generalizing board with
  | nil => exact .refl
  | cons c calls ih => exact (accesses_call board c).trans (ih _)

/-! ### A new board -/

/-- The bus of a new board with its devices, none of which has been told anything. -/
def bareBus : Bus := Bus.empty.callAll (devices.map .attach)

/-- The bus of a new board is the bare one after it was told to begin. -/
theorem initialBus_eq : initialBus = bareBus.signal .init := by
  unfold initialBus bareBus Bus.callAll
  rw [List.foldl_map]
  rfl

/-- A device of a known size that fits. -/
theorem allot_of_size {device : Device} {devices : List Device} {next n : ℕ}
    (hsize : device.size = n) (hfits : 0 < n ∧ n ≤ addressSpace - next) :
    Bus.allot next (device :: devices)
      = ⟨next, device.name, device.kind, n⟩ :: Bus.allot (next + n) devices := by
  subst hsize
  have hfits : Bus.Fits next device := hfits
  rw [Bus.allot_cons, if_pos hfits]
  rfl

/-- Each device fits behind the ones before it. -/
theorem allot_devices : Bus.allot 0 devices = memoryMap := by
  have ram {name : String} {n : ℕ} : (ramOf name n).size = n := Array.size_replicate
  have rom {name : String} {n : ℕ} : (romOf name n).size = n := Array.size_replicate
  unfold devices
  rw [allot_of_size ram (by decide), allot_of_size ram (by decide), allot_of_size ram (by decide),
    allot_of_size ram (by decide), allot_of_size (n := 0x4000) rfl (by decide),
    allot_of_size rom (by decide), allot_of_size (n := 0x0040) rfl (by decide),
    allot_of_size ram (by decide), allot_of_size rom (by decide)]
  rfl

/-- Its slots are those of the memory map. -/
theorem slots_initialBus : initialBus.slots = memoryMap := by
  have offered : (devices.map Bus.Call.attach).filterMap Bus.Call.device? = devices := by
    rw [List.filterMap_map]
    exact List.filterMap_some
  rw [initialBus_eq, (Bus.accesses_signal Bus.writable bareBus .init).slots_eq.1, bareBus,
    Bus.slots_callAll, offered]
  show [] ++ Bus.allot 0 devices = memoryMap
  rw [List.nil_append, allot_devices]

theorem memory_initial : initial.machine.memory = initialBus := by
  dsimp only [initial]

/-- A new board has the memory map. -/
theorem mapped_initial : initial.Mapped := by
  unfold Mapped
  rw [memory_initial]
  exact slots_initialBus

/-- So it has after any calls. -/
theorem mapped_callAll (calls : List Call) : (initial.callAll calls).Mapped :=
  (accesses_callAll initial calls).slots_eq.1.trans mapped_initial

/-- Attaching devices does nothing to the memory management unit. -/
theorem mmu_bareBus : bareBus.mmu = Mmu.initial poolNodes_pos := by
  suffices ∀ bus : Bus, (bus.callAll (devices.map .attach)).mmu = bus.mmu from this Bus.empty
  induction devices with
  | nil => exact fun _ => rfl
  | cons device devices ih =>
    exact fun bus => (ih (bus.attach device).2).trans (Bus.mmu_attach bus device)

/-- What holds in a new memory management unit and is kept by every request holds on every board. -/
theorem unit_of_callAll {P : Mmu poolNodes → Prop} (start : P (Mmu.initial poolNodes_pos))
    (serve : ∀ m r, P m → P (m.serve r)) (drain : ∀ m, P m → P m.drain.2) (calls : List Call) :
    P (initial.callAll calls).machine.memory.mmu := by
  have told := (Bus.accesses_signal Bus.writable bareBus .init).unit_of serve drain
    (mmu_bareBus ▸ start)
  refine (accesses_callAll initial calls).unit_of serve drain ?_
  rw [memory_initial, initialBus_eq]
  exact told

end Board

end Machine6809
