import Machine6809.HexImage.Load
import Mathlib.Control.Monad.Basic
import Mathlib.Data.Nat.Notation

/-!
# Two ways of writing an image

An image can be written in segments or linearly. In segment form the base records hold a segment,
which counts sixteen, and the start record holds a code segment and an offset in it. In linear form
the base records hold the upper half of an address, and the start record a whole one. `Record.cells`
and `Record.starts` say what records of either form stand for: bytes at addresses, and start
addresses. A list of records *writes* an image if it stands for its bytes in their order and for its
start address (`Writes`). There are many ways of doing that in each form, as an address below 65536
is the sum of a segment and an offset in up to 4096 ways and blocks may be cut anywhere.

For the bytes the loader does what the records say, whatever the form is (`loadRecords_eq`). So the
two forms leave the same memory, and they have the same number of bytes. The start address is
another matter. The loader takes the whole address of a linear start record, but of a segment start
record it takes the offset alone. The two agree if and only if the code segment is zero
(`writings_load_alike`), and where it is not, an image starts elsewhere when it is written in
segments (`start_lost_in_segment_form`).
-/

namespace Machine6809

/-! ### What records stand for -/

/-- The bytes of a block with their addresses. -/
def blockCells (address : ℕ) : List Byte → List (ℕ × Byte)
  | [] => []
  | value :: bytes => (address, value) :: blockCells (address + 1) bytes

/-- The bytes of an image that is given in blocks. -/
def cellsOf (blocks : List (ℕ × List Byte)) : List (ℕ × Byte) :=
  blocks.flatMap fun block => blockCells block.1 block.2

namespace Record

/-- The bytes that records stand for, with their addresses, if a base is in force. -/
def cells (base : ℕ) : List Record → List (ℕ × Byte)
  | [] => []
  | .data offset bytes :: records => blockCells (base + offset.toNat) bytes ++ cells base records
  | .endOfFile :: _ => []
  | .segmentBase segment :: records => cells (16 * segment.toNat) records
  | .linearBase upper :: records => cells (65536 * upper.toNat) records
  | .segmentStart _ _ :: records | .linearStart _ :: records => cells base records

/-- The start addresses that records stand for. -/
def starts : List Record → List ℕ
  | [] => []
  | .segmentStart cs ip :: records => (16 * cs.toNat + ip.toNat) :: starts records
  | .linearStart address :: records => address :: starts records
  | .endOfFile :: _ => []
  | .data _ _ :: records | .segmentBase _ :: records | .linearBase _ :: records => starts records

end Record

/-- The two forms of an image. -/
inductive ImageForm where
  | segments | linear
  deriving DecidableEq, Repr

/-- The records that belong to a form. -/
def ImageForm.allows : ImageForm → Record → Bool
  | _, .data _ _ | _, .endOfFile => true
  | .segments, .segmentBase _ | .segments, .segmentStart _ _ => true
  | .linear, .linearBase _ | .linear, .linearStart _ => true
  | _, _ => false

/-- **A way of writing an image** in one of the forms. The image has some blocks and a start
address, which may be written more than once. -/
structure Writes (form : ImageForm) (blocks : List (ℕ × List Byte)) (start : ℕ)
    (records : List Record) : Prop where
  allowed : ∀ record ∈ records, form.allows record = true
  cells_eq : Record.cells 0 records = cellsOf blocks
  starts_eq : ∀ address ∈ Record.starts records, address = start
  starts_ne : Record.starts records ≠ []

/-! ### What the loader makes of them -/

/-- The start address that the loader ends up with: that of the last start record, but of a start
record in segments the offset only. -/
def reportedStart? : List Record → Option Word
  | [] | .endOfFile :: _ => none
  | .segmentStart _ ip :: records => (reportedStart? records).or (some ip)
  | .linearStart address :: records => (reportedStart? records).or (some (UInt16.ofNat address))
  | .data _ _ :: records | .segmentBase _ :: records | .linearBase _ :: records =>
    reportedStart? records

namespace Bus

/-- Store bytes of an image one after the other. -/
def storeCells (bus : Bus) (cells : List (ℕ × Byte)) : Bus :=
  cells.foldl (fun bus cell => bus.storeImageByte (UInt16.ofNat cell.1) cell.2) bus

section Loading

variable {records : List Record}

theorem storeCells_append (bus : Bus) (cells more : List (ℕ × Byte)) :
    bus.storeCells (cells ++ more) = (bus.storeCells cells).storeCells more :=
  List.foldl_append

theorem length_blockCells (address : ℕ) (bytes : List Byte) :
    (blockCells address bytes).length = bytes.length := by
  induction bytes generalizing address with
  | nil => rfl
  | cons value bytes ih => rw [blockCells, List.length_cons, ih, List.length_cons]

/-- A block that lies in memory is stored whole. -/
theorem storeImageBytes_eq (bus : Bus) {address : ℕ} {bytes : List Byte}
    (inside : ∀ cell ∈ blockCells address bytes, cell.1 < addressSpace) :
    bus.storeImageBytes address bytes = (.ok (), bus.storeCells (blockCells address bytes)) := by
  induction bytes generalizing bus address with
  | nil => rfl
  | cons value bytes ih =>
    obtain ⟨here, others⟩ := List.forall_mem_cons.mp inside
    rw [storeImageBytes, if_pos here]
    exact ih _ others

/-- **The loader does what the records say**, of whatever form they are. If all addresses are in
memory it stores the bytes in their order and counts them. -/
theorem loadRecords_eq (bus : Bus) {base : ℕ} {image : Image}
    (inside : ∀ cell ∈ Record.cells base records, cell.1 < addressSpace)
    (begins : ∀ address ∈ Record.starts records, address < addressSpace) :
    bus.loadRecords base image (records.map .ok) =
      (.ok
        { bytes := image.bytes + (Record.cells base records).length
          start := (reportedStart? records).or image.start },
        bus.storeCells (Record.cells base records)) := by
  -- record by record; the last start record is the one that counts
  induction records generalizing bus base image with
  | nil => rfl
  | cons record records ih =>
    rw [List.map_cons]
    cases record with
    | endOfFile => rfl
    -- another base is in force for the loader and for the bytes alike
    | segmentBase segment | linearBase upper => exact ih bus inside begins
    | data offset bytes =>
      -- the block comes first, and the others are stored in the bus that it leaves
      rw [Record.cells, List.forall_mem_append] at inside
      obtain ⟨here, others⟩ := inside
      rw [loadRecords, storeImageBytes_eq bus here]
      dsimp only
      rw [ih _ others begins, Record.cells, List.length_append, length_blockCells,
        storeCells_append, Nat.add_assoc]
      rfl
    | segmentStart cs ip =>
      rw [Record.starts, List.forall_mem_cons] at begins
      rw [loadRecords, ih bus inside begins.2, reportedStart?, Option.or_assoc]
      rfl
    | linearStart address =>
      rw [Record.starts, List.forall_mem_cons] at begins
      rw [loadRecords, if_pos begins.1, ih bus inside begins.2, reportedStart?, Option.or_assoc]
      rfl

end Loading

end Bus

/-! ### The start address -/

section Start

variable {records : List Record} {blocks : List (ℕ × List Byte)} {start : ℕ} {bus : Bus}

/-- Without a start record no start is reported. -/
theorem reportedStart_of_starts_nil (none : Record.starts records = []) :
    reportedStart? records = .none := by
  induction records with
  | nil => rfl
  | cons record records ih =>
    cases record with
    | endOfFile => rfl
    | data | segmentBase | linearBase => exact ih none
    | segmentStart | linearStart => exact nomatch none

/-- What a start record stands for, and what the loader takes from it. -/
inductive StartsAt : Record → ℕ → Word → Prop where
  | segment (cs ip : Word) : StartsAt (.segmentStart cs ip) (16 * cs.toNat + ip.toNat) ip
  | linear (address : ℕ) : StartsAt (.linearStart address) address (UInt16.ofNat address)

/-- The loader's start address comes from one of the start records, the last one. -/
theorem exists_startsAt (named : Record.starts records ≠ []) : ∃ record ∈ records,
    ∃ address ∈ Record.starts records, ∃ taken, StartsAt record address taken ∧
      reportedStart? records = some taken := by
  induction records with
  | nil => exact absurd rfl named
  | cons record records ih =>
    -- a start record is the one asked for unless there is one after it
    have start_cons {address taken} (here : StartsAt record address taken) (addresses :
          Record.starts (record :: records) = address :: Record.starts records)
        (reports : reportedStart? (record :: records) =
          (reportedStart? records).or (some taken)) : ∃ record' ∈ record :: records,
        ∃ address ∈ Record.starts (record :: records), ∃ taken, StartsAt record' address taken ∧
          reportedStart? (record :: records) = some taken := by
      rw [addresses, reports]
      by_cases last : Record.starts records = []
      · rw [reportedStart_of_starts_nil last]
        exact ⟨record, List.mem_cons_self, address, List.mem_cons_self, taken, here, rfl⟩
      · obtain ⟨record', mem, address', hmem, taken', begins, reported⟩ := ih last
        rw [reported]
        exact ⟨record', List.mem_cons_of_mem record mem, address', List.mem_cons_of_mem _ hmem,
          taken', begins, rfl⟩
    cases record with
    | endOfFile => exact absurd rfl named
    -- records of other kinds do not matter
    | data | segmentBase | linearBase =>
      obtain ⟨record', mem, rest⟩ := ih named
      exact ⟨record', List.mem_cons_of_mem _ mem, rest⟩
    | segmentStart cs ip => exact start_cons (.segment cs ip) rfl rfl
    | linearStart address => exact start_cons (.linear address) rfl rfl

/-- Written linearly, an image begins at its start address. -/
theorem Writes.reportedStart_linear (h : Writes .linear blocks start records) :
    reportedStart? records = some (UInt16.ofNat start) := by
  obtain ⟨record, mem, address, hmem, taken, begins, reported⟩ := exists_startsAt h.starts_ne
  obtain rfl := h.starts_eq address hmem
  cases begins with
  | segment => exact absurd (h.allowed _ mem) Bool.false_ne_true
  | linear => exact reported

/-- Written in segments, it begins at an offset of its start address. -/
theorem Writes.reportedStart_segments (h : Writes .segments blocks start records) :
    ∃ cs ip, .segmentStart cs ip ∈ records ∧ 16 * cs.toNat + ip.toNat = start ∧
      reportedStart? records = some ip := by
  obtain ⟨record, mem, address, hmem, taken, begins, reported⟩ := exists_startsAt h.starts_ne
  obtain rfl := h.starts_eq address hmem
  cases begins with
  | segment cs => exact ⟨cs, _, mem, rfl, reported⟩
  | linear => exact absurd (h.allowed _ mem) Bool.false_ne_true

/-- An image that lies in memory is stored whole, however it is written. -/
theorem Writes.loadImage_eq {form : ImageForm} {text : String}
    (h : Writes form blocks start records)
    (read : Bus.recordsOf text = records.map .ok)
    (inside : ∀ cell ∈ cellsOf blocks, cell.1 < addressSpace) (begins : start < addressSpace) :
    bus.loadImage text =
      (.ok { bytes := (cellsOf blocks).length, start := reportedStart? records },
        (bus.storeCells (cellsOf blocks)).note (.imageLoaded (cellsOf blocks).length)) := by
  have loaded : bus.loadRecords 0 Image.empty (records.map .ok) = _ :=
    Bus.loadRecords_eq bus (h.cells_eq ▸ inside) fun address mem => h.starts_eq address mem ▸ begins
  rw [h.cells_eq, Image.empty, Nat.zero_add, Option.or_none] at loaded
  rw [Bus.loadImage, read, Image.empty, loaded]

/-- The offset alone is the start address only if there is nothing in the segment. -/
theorem offset_eq_iff {cs ip : Word} (sum : 16 * cs.toNat + ip.toNat = start)
    (begins : start < addressSpace) : ip = UInt16.ofNat start ↔ cs = 0 := by
  have fits : start < 2 ^ 16 := begins
  rw [← UInt16.toNat_inj, ← UInt16.toNat_inj, UInt16.toNat_ofNat', Nat.mod_eq_of_lt fits,
    UInt16.toNat_zero]
  omega

/-- **Both forms leave the same memory, and not always the same start address.** Take an image whose
bytes and start address are in memory, a way of writing it in segments and a way of writing it
linearly. On any bus both load, leave the same bus and report the same number of bytes. The linear
form reports the start address. The form in segments reports the offset of its start record, which
is the start address if and only if the code segment is zero.

The texts are read by the library's own reader (`Bus.recordsOf`). All that is used of it is that it
reads these records from them, so the statement is about the loader and holds for any such
reader. -/
theorem writings_load_alike {inSegments inLine : List Record} {textInSegments textInLine : String}
    (bus : Bus) (inside : ∀ cell ∈ cellsOf blocks, cell.1 < addressSpace)
    (begins : start < addressSpace)
    (segments : Writes .segments blocks start inSegments)
    (linear : Writes .linear blocks start inLine)
    (readSegments : Bus.recordsOf textInSegments = inSegments.map .ok)
    (readLinear : Bus.recordsOf textInLine = inLine.map .ok) :
    ∃ cs ip after, .segmentStart cs ip ∈ inSegments ∧ 16 * cs.toNat + ip.toNat = start ∧
      bus.loadImage textInLine =
        (.ok { bytes := (cellsOf blocks).length, start := some (UInt16.ofNat start) }, after) ∧
      bus.loadImage textInSegments =
        (.ok { bytes := (cellsOf blocks).length, start := some ip }, after) ∧
      (bus.loadImage textInSegments = bus.loadImage textInLine ↔ cs = 0) := by
  obtain ⟨cs, ip, mem, sum, reported⟩ := segments.reportedStart_segments
  have fromLine : bus.loadImage textInLine = _ := linear.loadImage_eq readLinear inside begins
  have fromSegments : bus.loadImage textInSegments = _ :=
    segments.loadImage_eq readSegments inside begins
  rw [linear.reportedStart_linear] at fromLine
  rw [reported] at fromSegments
  refine ⟨cs, ip, _, mem, sum, fromLine, fromSegments, ?_⟩
  rw [← offset_eq_iff sum begins, fromLine, fromSegments]
  -- the results differ in the start address or not at all
  constructor
  · intro same
    exact Option.some.inj (congrArg Image.start (Except.ok.inj (congrArg Prod.fst same)))
  · rintro rfl
    rfl

end Start

/-! ### One image in three ways -/

/-- Two bytes at $1000, where the image begins, written in segments. -/
def smallInSegments (cs ip : Word) : List Record :=
  [.segmentBase 0x0100, .data 0 [0x12, 0x39], .segmentStart cs ip, .endOfFile]

/-- The same image, written linearly. -/
def smallInLine : List Record :=
  [.linearBase 0, .data 0x1000 [0x12, 0x39], .linearStart 0x1000, .endOfFile]

/-- If the start address is not in a segment, both forms load alike. -/
theorem writings_load_alike_small :
    ∃ after,
      Bus.empty.loadImage ":020000040000FA\n:021000001239A3\n:0400000500001000E7\n:00000001FF\n" =
        (.ok { bytes := 2, start := some 0x1000 }, after) ∧
      Bus.empty.loadImage ":020000020100FB\n:020000001239B3\n:0400000300001000E9\n:00000001FF\n" =
        (.ok { bytes := 2, start := some 0x1000 }, after) := by
  have segments : Writes .segments [(0x1000, [0x12, 0x39])] 0x1000 (smallInSegments 0 0x1000) :=
    ⟨by decide, by decide, by decide, by decide⟩
  have linear : Writes .linear [(0x1000, [0x12, 0x39])] 0x1000 smallInLine :=
    ⟨by decide, by decide, by decide, by decide⟩
  -- both texts are read as the records that they are meant to hold
  have readSegments : Bus.recordsOf
      ":020000020100FB\n:020000001239B3\n:0400000300001000E9\n:00000001FF\n" =
        (smallInSegments 0 0x1000).map .ok := by decide +kernel
  have readLinear : Bus.recordsOf
      ":020000040000FA\n:021000001239A3\n:0400000500001000E7\n:00000001FF\n" =
        smallInLine.map .ok := by decide +kernel
  obtain ⟨cs, ip, after, mem, -, fromLine, fromSegments, -⟩ := writings_load_alike Bus.empty
    (by decide) (by decide) segments linear readSegments readLinear
  obtain ⟨rfl, rfl⟩ : cs = 0 ∧ ip = 0x1000 := by simpa [smallInSegments] using mem
  exact ⟨after, fromLine, fromSegments⟩

/-- **The code segment of a start record is lost.** With the code segment $0100 and the offset 0 the
start record still stands for $1000, but the loader reports 0. -/
theorem start_lost_in_segment_form :
    Writes .segments [(0x1000, [0x12, 0x39])] 0x1000 (smallInSegments 0x0100 0) ∧
      Writes .linear [(0x1000, [0x12, 0x39])] 0x1000 smallInLine ∧
      Bus.recordsOf ":020000020100FB\n:020000001239B3\n:0400000301000000F8\n:00000001FF\n" =
        (smallInSegments 0x0100 0).map .ok ∧
      Bus.recordsOf ":020000040000FA\n:021000001239A3\n:0400000500001000E7\n:00000001FF\n" =
        smallInLine.map .ok ∧
      (Bus.empty.loadImage
          ":020000020100FB\n:020000001239B3\n:0400000301000000F8\n:00000001FF\n").1 =
        .ok { bytes := 2, start := some 0 } ∧
      (Bus.empty.loadImage
          ":020000040000FA\n:021000001239A3\n:0400000500001000E7\n:00000001FF\n").1 =
        .ok { bytes := 2, start := some 0x1000 } := by
  refine ⟨?segments, ?linear, by decide +kernel, by decide +kernel, by decide +kernel,
    by decide +kernel⟩
  case segments => exact ⟨by decide, by decide, by decide, by decide⟩
  case linear => exact ⟨by decide, by decide, by decide, by decide⟩

end Machine6809
