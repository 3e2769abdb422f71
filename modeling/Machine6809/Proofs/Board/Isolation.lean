import Machine6809.Proofs.Board.MemoryMap
import Machine6809.Proofs.Machine.Vectors
import Mathlib.Data.Nat.Notation

/-!
# What a program cannot reach

Whatever a program does, ROM stays as the loader left it, and therefore interrupts and resets lead
to where the loader wanted them to lead. The memory management unit is reached through its registers
and its windows only. And nothing that happens to a board makes a window show anything but a chain.

The program may be any bytes at all. It is enough that all it can do is made of loads and stores,
and to know for a single one of these what it changes.
-/

namespace Machine6809

open Machine Board

/-- The word at an address. -/
def Bus.wordAt (bus : Bus) (address : Word) : Word :=
  wordOf (bus.read address).1 (bus.read (address + 1)).1

/-- The access is one that the memory management unit may notice. -/
def MemoryAccess.MeetsUnit : MemoryAccess → Prop
  | .load address => InWindows address
  | .store address _ => InRegisters address ∨ InWindows address

section Rom

variable {bus bus' : Bus} {a : Word}

/-- Accesses by the processor leave ROM as it is. -/
theorem read_of_accesses (hslots : bus.slots = memoryMap) (ha : InRom a)
    (h : Bus.Accesses Bus.writable bus bus') : (bus'.read a).1 = (bus.read a).1 := by
  rw [(h.answers rfl (answers_rom hslots ha)).read]

/-- A vector in ROM goes on to hold the same address. -/
theorem points_rom (hslots : bus.slots = memoryMap) {vector : Word} (high : InRom vector)
    (low : InRom (vector + 1)) :
    Points (Bus.Accesses Bus.writable bus) vector (bus.wordAt vector) :=
  ⟨_, _, rfl, fun _ h => ⟨read_of_accesses hslots high h, read_of_accesses hslots low h⟩⟩

/-- The vectors are in ROM. -/
theorem inRom_vector (source : InterruptSource) :
    InRom source.vector ∧ InRom (source.vector + 1) := by
  cases source <;> decide

/-- The vectors of software interrupts lie in ROM. -/
theorem inRom_of_swi {vector : Word}
    (h : vector ∈ [VectorAddress.swi, VectorAddress.swi2, VectorAddress.swi3]) :
    InRom vector ∧ InRom (vector + 1) := by
  -- a statement about all members would be decided by going through all words
  have all : [VectorAddress.swi, VectorAddress.swi2, VectorAddress.swi3].all fun v =>
      InRom v ∧ InRom (v + 1) := by decide
  exact of_decide_eq_true (List.all_eq_true.mp all vector h)

end Rom

/-! ### The memory management unit -/

/-- Either the unit is still the same or there was an access that it may have noticed. -/
def UnitNoticed (unit : Mmu poolNodes) (bus : Bus) (accesses : List MemoryAccess) : Prop :=
  bus.slots = memoryMap ∧ (bus.mmu = unit ∨ ∃ access ∈ accesses, access.MeetsUnit)

/-- One more access. -/
theorem UnitNoticed.step {unit : Mmu poolNodes} {bus bus' : Bus} {accesses : List MemoryAccess}
    {access : MemoryAccess} (h : UnitNoticed unit bus accesses)
    (hslots : bus'.slots = bus.slots) (hmeets : bus'.mmu ≠ bus.mmu → access.MeetsUnit) :
    UnitNoticed unit bus' (accesses ++ [access]) := by
  refine ⟨hslots.trans h.1, ?_⟩
  obtain hsame | ⟨earlier, hmem, hearlier⟩ := h.2
  · by_cases hunit : bus'.mmu = bus.mmu
    · exact .inl (hunit.trans hsame)
    · exact .inr ⟨access, List.mem_append_right _ List.mem_cons_self, hmeets hunit⟩
  · exact .inr ⟨earlier, List.mem_append_left _ hmem, hearlier⟩

/-- No access changes the unit without being noticed. -/
theorem lasting_unitNoticed (unit : Mmu poolNodes) :
    Lasting fun M : Watched Bus => UnitNoticed unit M.memory M.accesses where
  load M address h := by
    show UnitNoticed unit (M.memory.read address).2.drain.2 (M.accesses ++ [.load address])
    refine h.step (Bus.accessed_read Bus.writable M.memory address).slots_eq fun hunit => ?_
    -- a read can change the unit through the windows only
    obtain ⟨slot, hmem, hkind, hcovers⟩ := Bus.exists_slot_of_mmu_read hunit
    exact inWindows_of_kind (h.1 ▸ hmem) hcovers hkind
  store M address value h := by
    show UnitNoticed unit (M.memory.write address value).drain.2
      (M.accesses ++ [.store address value])
    refine h.step (Bus.accessed_write address value).slots_eq fun hunit => ?_
    obtain ⟨slot, hmem, hkind, hcovers⟩ := Bus.exists_slot_of_mmu_write hunit
    -- a write can do so through its registers, too
    obtain hkind | hkind := hkind
    · exact .inl (inRegisters_of_kind (h.1 ▸ hmem) hcovers hkind)
    · exact .inr (inWindows_of_kind (h.1 ▸ hmem) hcovers hkind)

/-- The unit changes only if something happens in the course of which it is met. -/
theorem exists_meetsUnit {m : Machine Bus} {e : Event} (hslots : m.memory.slots = memoryMap)
    (hunit : (m.happen e).memory.mmu ≠ m.memory.mmu) :
    ∃ access ∈ m.accesses e, access.MeetsUnit := by
  have start : UnitNoticed m.memory.mmu m.memory [] := ⟨hslots, .inl rfl⟩
  have noticed : UnitNoticed m.memory.mmu (m.happen e).memory (m.accesses e) :=
    holds_of_accesses (lasting_unitNoticed m.memory.mmu) start e
  exact noticed.2.resolve_left hunit

/-- On every board that has come about from a new one the windows show chains. -/
theorem anchored_callAll (calls : List Board.Call) :
    (initial.callAll calls).machine.memory.mmu.Anchored := by
  have h := unit_of_callAll (P := fun unit => unit.pool.Sound False ∧ unit.Anchored)
    ⟨Pool.sound_empty (by decide), Mmu.anchored_initial poolNodes_pos⟩ ?serve (fun _ h => h) calls
  case serve =>
    rintro unit r ⟨hsound, hanchored⟩
    obtain ⟨S, hS⟩ := hsound.chained
    exact ⟨Mmu.sound_serve hsound False.elim, Mmu.anchored_serve hS hanchored r⟩
  exact h.2

/-! ### Isolation -/

/-- What no program changes on this board, whatever happens to the machine and for how long. -/
structure Isolated (board : Board) : Prop where
  /-- ROM reads the same as before. -/
  rom : ∀ es a, InRom a →
    ((board.machine.run es).memory.read a).1 = (board.machine.memory.read a).1
  /-- Interrupts lead to where the vectors in ROM have always pointed, -/
  interrupt : ∀ es e source, (board.machine.run es).Works e →
    (board.machine.run es).started.cpu.lines.accepted
      (board.machine.run es).started.cpu.registers.cc = some source →
    ((board.machine.run es).happen e).cpu.registers.pc
      = board.machine.memory.wordAt source.vector
  /-- software interrupts do, -/
  software : ∀ es e row vector, (board.machine.run es).Works e →
    (board.machine.run es).started.Executes →
    OpcodeMap.lookup? ((board.machine.run es).started.awake.gives fetchOpcode).1 = some row →
    row.operation.vector? = some vector →
    ((board.machine.run es).happen e).cpu.registers.pc = board.machine.memory.wordAt vector
  /-- and so does a reset, of the processor alone or of the board. -/
  reset : ∀ es, ((board.machine.run es).happen .reset).cpu.registers.pc
      = board.machine.memory.wordAt VectorAddress.reset ∧
    ({ board with machine := board.machine.run es }.reset).machine.cpu.registers.pc
      = board.machine.memory.wordAt VectorAddress.reset
  /-- The unit changes only with an access to its registers or its windows. -/
  unit : ∀ es e,
    ((board.machine.run es).happen e).memory.mmu ≠ (board.machine.run es).memory.mmu →
    ∃ access ∈ (board.machine.run es).accesses e, access.MeetsUnit

/-- A board with the memory map isolates its guest. -/
theorem isolated_of_mapped {board : Board} (mapped : board.Mapped) : Isolated board := by
  have lasting := Bus.lasting_accesses board.machine.memory
  have reached : ∀ es, Bus.Accesses Bus.writable board.machine.memory
      (board.machine.run es).memory := Bus.accesses_run board.machine
  -- ROM cannot change, so the vectors in it hold the same address throughout
  have resets : Points (Bus.Accesses Bus.writable board.machine.memory) VectorAddress.reset
      (board.machine.memory.wordAt VectorAddress.reset) :=
    points_rom mapped (by decide) (by decide)
  constructor
  case rom => exact fun es a ha => read_of_accesses mapped ha (reached es)
  case interrupt =>
    intro es e source works accepted
    obtain ⟨high, low⟩ := inRom_vector source
    exact pc_of_accepted lasting (points_rom mapped high low) (reached es) works accepted
  case software =>
    intro es e row vector works executes hrow hvector
    -- an instruction with a vector is a software interrupt, whose vector is in ROM
    obtain hnone | ⟨-, hvectors⟩ := swi_rows row (List.mem_of_find?_eq_some hrow)
    · exact nomatch hnone.symm.trans hvector
    · rw [hvector] at hvectors
      obtain ⟨v, hmem, hsome⟩ := List.mem_map.mp hvectors
      obtain rfl := Option.some.inj hsome
      obtain ⟨high, low⟩ := inRom_of_swi hmem
      exact pc_of_swi lasting (points_rom mapped high low) (reached es) works executes hrow hvector
  case reset =>
    refine fun es => ⟨pc_of_reset lasting resets (reached es), ?_⟩
    -- the devices are told of the reset before the processor is reset
    have told :=
      accesses_signal Bus.writable { board with machine := board.machine.run es } .reset
    rw [(machine_reset _).2]
    exact pc_of_reset lasting resets ((reached es).trans told)
  case unit => exact fun es e => exists_meetsUnit ((reached es).slots_eq.1.trans mapped)

/-- **A program cannot change ROM, nor reach the memory management unit in secret.** This is so on
every board whose devices are where they belong, and they are on every board that has come about
from a new one, whatever has been done to it and whatever images have been loaded. There every
window that shows something shows a chain, by its root. -/
theorem guest_is_isolated : (∀ board : Board, board.Mapped → Isolated board) ∧
    ∀ calls, (initial.callAll calls).Mapped ∧
      ∀ w h, (initial.callAll calls).machine.memory.mmu.window? w = some h →
        (initial.callAll calls).machine.memory.mmu.pool.isHandle h = true :=
  ⟨fun _ mapped => isolated_of_mapped mapped,
    fun calls => ⟨mapped_callAll calls, anchored_callAll calls⟩⟩

/-- A new board does, also with an interrupt. -/
theorem guest_is_isolated_initial :
    initial.Mapped ∧ Isolated initial ∧
      ((initial.machine.run [.tick, .irq true, .step]).memory.read 0xFFFE).1
        = (initial.machine.memory.read 0xFFFE).1 := by
  have isolated := guest_is_isolated.1 initial mapped_initial
  exact ⟨mapped_initial, isolated, isolated.rom [.tick, .irq true, .step] 0xFFFE (by decide)⟩

end Machine6809
