import Machine6809.HexImage.Load
import Machine6809.Proofs.Bus.Chips
import Machine6809.Proofs.Bus.FlatMemory
import Mathlib.Data.Nat.Notation

/-!
# Loading an image into chips

What the lines of an image ask of the loader is a list of items: bytes for addresses, start
addresses and lines that are no record (`itemsOf`). The address of a byte is counted from the base
that the latest base record has set (`baseAfter`), so that the items of a line depend on the lines
before it and on nothing else. Some items cannot be granted (`ImageItem.error?`).

The loader grants one item after the other, up to the first that it cannot (`Takes`). That holds for
the bytes of one record (`takes_storeImageBytes`) and, with the items of a line put before those of
the lines after it, for all records (`takes_loadRecords`). In a bus of chips this says what every
address shows afterwards, whether loading has succeeded or not (`image_loads_in_order`).
-/

namespace Machine6809

/-! ### Items -/

/-- What a line of an image can ask of the loader. -/
inductive ImageItem where
  /-- To store a byte. -/
  | byte (address : ℕ) (value : Byte)
  /-- To take note of a start address. -/
  | start (address : ℕ)
  /-- Nothing that can be read. -/
  | unreadable (e : RecordError)

namespace ImageItem

/-- Why the item cannot be granted, if it cannot. -/
def error? : ImageItem → Option Error
  | .byte address _ | .start address =>
    if address < addressSpace then none else some (.outsideMemory address)
  | .unreadable e => some (.record e)

/-- The byte to store, with its address. -/
def store? : ImageItem → Option (Word × Byte)
  | .byte address value => some (UInt16.ofNat address, value)
  | .start _ | .unreadable _ => none

/-- The start address, if the item is one. -/
def start? : ImageItem → Option Word
  | .start address => some (UInt16.ofNat address)
  | .byte _ _ | .unreadable _ => none

end ImageItem

/-- The bytes that some items ask to store, in their order. -/
def storesOf (items : List ImageItem) : List (Word × Byte) := items.filterMap ImageItem.store?

/-- What is known of an image once some more items are granted. -/
def Image.after (image : Image) (items : List ImageItem) : Image :=
  { bytes := image.bytes + (storesOf items).length
    start := (lastValue? ImageItem.start? items).or image.start }

theorem storesOf_append (items more : List ImageItem) :
    storesOf (items ++ more) = storesOf items ++ storesOf more :=
  List.filterMap_append

theorem Image.after_start (image : Image) (address : ℕ) :
    image.after [.start address] = { image with start := some (UInt16.ofNat address) } := rfl

theorem Image.after_append (image : Image) (items more : List ImageItem) :
    image.after (items ++ more) = (image.after items).after more := by
  unfold Image.after
  rw [storesOf_append, List.length_append, lastValue?_append, Option.or_assoc, Nat.add_assoc]

/-! ### Lines -/

/-- The base that a record sets, if it sets one. -/
def base? : Except RecordError Record → Option ℕ
  | .ok (.segmentBase segment) => some (16 * segment.toNat)
  | .ok (.linearBase upper) => some (65536 * upper.toNat)
  | _ => none

/-- The base in force after some lines: the latest that was set, or zero. -/
def baseAfter (lines : List (Except RecordError Record)) : ℕ := (lastValue? base? lines).getD 0

/-- One record more may give a new base. -/
theorem baseAfter_concat (lines : List (Except RecordError Record))
    (line : Except RecordError Record) :
    baseAfter (lines ++ [line]) = (base? line).getD (baseAfter lines) := by
  unfold baseAfter
  rw [lastValue?_concat, Option.getD_or]

/-- Bytes for an address and those after it. -/
def byteItems (address : ℕ) (bytes : List Byte) : List ImageItem :=
  bytes.mapIdx fun i value => .byte (address + i) value

/-- What a line asks of the loader, given the base in force. -/
def itemsOfLine (base : ℕ) : Except RecordError Record → List ImageItem
  | .error e => [.unreadable e]
  | .ok (.data offset bytes) => byteItems (base + offset.toNat) bytes
  | .ok (.segmentStart _ ip) => [.start ip.toNat]
  | .ok (.linearStart address) => [.start address]
  | .ok .endOfFile | .ok (.segmentBase _) | .ok (.linearBase _) => []

/-- The line is the end-of-file record. -/
def isEnd : Except RecordError Record → Bool
  | .ok .endOfFile => true
  | _ => false

/-- What the lines ask of the loader, given the lines before them. -/
def itemsAfter (before : List (Except RecordError Record)) :
    List (Except RecordError Record) → List ImageItem
  | [] => []
  | line :: lines =>
    itemsOfLine (baseAfter before) line ++ itemsAfter (before ++ [line]) lines

/-- What an image asks of the loader, up to the first end-of-file record. -/
def itemsOf (lines : List (Except RecordError Record)) : List ImageItem :=
  itemsAfter [] (lines.takeWhile (!isEnd ·))

/-- The bytes of a record go to one address after the other. -/
theorem byteItems_cons (address : ℕ) (value : Byte) (bytes : List Byte) :
    byteItems address (value :: bytes) = .byte address value :: byteItems (address + 1) bytes := by
  -- counted from the second byte, each of the others is one step nearer
  simp only [byteItems, List.mapIdx_cons, Nat.add_zero, Nat.add_assoc, Nat.add_comm 1]

/-- Each of them is stored. -/
theorem length_storesOf_byteItems (address : ℕ) (bytes : List Byte) :
    (storesOf (byteItems address bytes)).length = bytes.length := by
  induction bytes generalizing address with
  | nil => rfl
  | cons value bytes ih =>
    rw [byteItems_cons, List.length_cons, ← ih (address + 1)]
    rfl

/-- And each of them counts. -/
theorem Image.after_byteItems (image : Image) (address : ℕ) (bytes : List Byte) :
    image.after (byteItems address bytes)
      = { image with bytes := image.bytes + bytes.length } := by
  have start : lastValue? ImageItem.start? (byteItems address bytes) = none := by
    rw [lastValue?_eq_none_iff]
    intro item hitem
    obtain ⟨i, hi, rfl⟩ := List.mem_mapIdx.mp hitem
    rfl
  unfold Image.after
  rw [length_storesOf_byteItems, start, Option.none_or]

/-! ### Granting items -/

namespace Bus

/-- The bytes are given to the bus one after the other, and every chip takes them. -/
abbrev StoresAll (stores : List (Word × Byte)) (bus bus' : Bus) : Prop :=
  Stores (fun _ => true) stores bus bus'

/-- The outcome of asking for items one after the other: all are granted and the result is `done`,
or those before the first that cannot be are, and the result is its error. -/
inductive Takes {α : Type} (items : List ImageItem) (done : α) (bus : Bus)
    (out : Except Error α × Bus) : Prop where
  | all (granted : ∀ item ∈ items, item.error? = none) (result : out.1 = .ok done)
    (stored : StoresAll (storesOf items) bus out.2)
  | upTo {before after : List ImageItem} {item : ImageItem} {e : Error}
    (split : items = before ++ item :: after) (granted : ∀ item ∈ before, item.error? = none)
    (failed : item.error? = some e) (result : out.1 = .error e)
    (stored : StoresAll (storesOf before) bus out.2)

section Takes

variable {α : Type} {bus bus₁ bus' : Bus} {items first rest : List ImageItem} {done : α}
  {out : Except Error α × Bus} {item : ImageItem} {stores more : List (Word × Byte)}

/-- What was done to the same devices was done to these. -/
theorem Puts.of_same {takes : DeviceKind → Bool} {a : Word} {v : Byte}
    (same : SameDevices bus bus₁) (h : Puts takes a v bus₁ bus') : Puts takes a v bus bus' := by
  obtain ⟨places, nextFree, mmu, journal⟩ := bus
  obtain ⟨places₁, nextFree₁, mmu₁, journal₁⟩ := bus₁
  obtain ⟨rfl, rfl⟩ := same
  exact ⟨h.nextFree_eq, h.missed, h.taken, h.refused⟩

/-- Stores after stores. -/
theorem Stores.append (h : StoresAll stores bus bus₁) (h' : StoresAll more bus₁ bus') :
    StoresAll (stores ++ more) bus bus' := by
  induction h with
  | done same =>
    -- what is left alone by the first part may as well be left alone before the second
    cases h' with
    | done same' => exact .done (same.trans same')
    | put put rest => exact .put (put.of_same same) rest
  | put put _ ih => exact .put put (ih h')

theorem takes_nil (done : α) (bus : Bus) : Takes [] done bus (.ok done, bus) :=
  .all (fun _ h => absurd h List.not_mem_nil) rfl (.done (.of_eq rfl))

/-- An item that cannot be granted ends it at once. -/
theorem takes_error {e : Error} (failed : item.error? = some e) (rest : List ImageItem) (done : α)
    (bus : Bus) : Takes (item :: rest) done bus (.error e, bus) :=
  .upTo (rfl : item :: rest = [] ++ item :: rest) (fun _ h => absurd h List.not_mem_nil) failed rfl
    (.done (.of_eq rfl))

/-- The items after those that have been granted. -/
theorem Takes.append (granted : ∀ item ∈ first, item.error? = none)
    (stored : StoresAll (storesOf first) bus bus₁) (h : Takes rest done bus₁ out) :
    Takes (first ++ rest) done bus out := by
  cases h with
  | all ok result stored' =>
    refine .all (fun item hitem => ?_) result ?_
    · -- all items of both parts have been granted
      exact (List.mem_append.mp hitem).elim (granted item) (ok item)
    · rw [storesOf_append]
      exact stored.append stored'
  | @upTo before after item e split ok failed result stored' =>
    -- the failure is in the second part, so all of the first part comes before it
    have both : first ++ rest = (first ++ before) ++ item :: after := by
      rw [split, List.append_assoc]
    refine .upTo both (fun item hitem => ?_) failed result ?_
    · exact (List.mem_append.mp hitem).elim (granted item) (ok item)
    · rw [storesOf_append]
      exact stored.append stored'

/-- Some items, and the others if all of these are granted. -/
theorem takes_then {part : Except Error Unit × Bus} {next : Bus → Except Error α × Bus}
    (later : ∀ bus₁, (∀ item ∈ first, item.error? = none) → StoresAll (storesOf first) bus bus₁ →
      Takes (first ++ rest) done bus (next bus₁)) :
    Takes first () bus part →
      Takes (first ++ rest) done bus
        (match part with
        | (.ok (), bus₁) => next bus₁
        | (.error e, bus₁) => (.error e, bus₁)) := by
  intro taken
  obtain ⟨result, bus₁⟩ := part
  cases taken with
  -- the first part has gone through, so the rest comes to be tried
  | all granted result stored =>
    obtain rfl := result
    exact later bus₁ granted stored
  | @upTo before after item e split granted failed result stored =>
    obtain rfl := result
    -- it has failed, and what would have come later is never tried
    have longer : first ++ rest = before ++ item :: (after ++ rest) := by
      rw [split, List.append_assoc, List.cons_append]
    exact .upTo longer granted failed rfl stored

/-! ### Loading -/

/-- A byte of an image is given to the bus. -/
theorem OfChips.puts_storeImageByte (h : bus.OfChips) (a : Word) (v : Byte) :
    Puts (fun _ => true) a v bus (bus.storeImageByte a v) := by
  obtain ⟨puts, -⟩ := h.puts_loaderWrite a v
  unfold storeImageByte
  -- if there is nothing behind the address, a message says so
  rcases hwrite : bus.loaderWrite a v with ⟨_ | _, bus'⟩
  all_goals
    rw [hwrite] at puts
    exact ⟨puts.nextFree_eq, puts.missed, puts.taken, puts.refused⟩

/-- The bytes of a record are stored up to the first that lies outside of memory. -/
theorem takes_storeImageBytes (h : bus.OfChips) (address : ℕ) (bytes : List Byte) :
    Takes (byteItems address bytes) () bus (bus.storeImageBytes address bytes) := by
  -- byte by byte, up to the first that is outside of memory
  induction bytes generalizing bus address with
  | nil => exact takes_nil () bus
  | cons value bytes ih =>
    rw [byteItems_cons]
    by_cases inside : address < addressSpace
    -- the address exists, so the byte is stored and the rest follows
    case pos =>
      have put := h.puts_storeImageByte (UInt16.ofNat address) value
      have rest := ih (put.ofChips h) (address + 1)
      have granted : ∀ item ∈ [ImageItem.byte address value], item.error? = none := by
        intro item hitem
        rw [List.mem_singleton.mp hitem]
        exact if_pos inside
      rw [storeImageBytes, if_pos inside]
      exact rest.append granted (.put put (.done (.of_eq rfl)))
    -- the first byte that is outside ends the record
    case neg =>
      have failed : (ImageItem.byte address value).error? = some (.outsideMemory address) :=
        if_neg inside
      rw [storeImageBytes, if_neg inside]
      exact takes_error failed _ () bus

/-- The records are taken up to the first end-of-file record, or to the first item that cannot be
granted. -/
theorem takes_loadRecords (h : bus.OfChips) (before lines : List (Except RecordError Record))
    (image : Image) :
    Takes (itemsAfter before (lines.takeWhile (!isEnd ·)))
      (image.after (itemsAfter before (lines.takeWhile (!isEnd ·)))) bus
      (bus.loadRecords (baseAfter before) image lines) := by
  -- line by line, up to the end record
  induction lines generalizing bus before image with
  | nil => exact takes_nil _ bus
  | cons line lines ih =>
    by_cases last : isEnd line
    · obtain rfl : line = .ok .endOfFile := by
        unfold isEnd at last
        split at last <;> simp_all
      exact takes_nil _ bus
    -- the items of this line come first, and then the image goes on with another base
    have later {bus₁ : Bus} (granted : ∀ item ∈ itemsOfLine (baseAfter before) line,
          item.error? = none)
        (stored : StoresAll (storesOf (itemsOfLine (baseAfter before) line)) bus bus₁) :=
      (ih (stored.ofChips h) (before ++ [line])
        (image.after (itemsOfLine (baseAfter before) line))).append granted stored
    have nothing : StoresAll [] bus bus := .done (.of_eq rfl)
    have granted {address : ℕ} (inside : address < addressSpace) :
        ∀ item ∈ [ImageItem.start address], item.error? = none := by
      intro item hitem
      rw [List.mem_singleton.mp hitem]
      exact if_pos inside
    rw [List.takeWhile_cons_of_pos (by simpa using last), itemsAfter, Image.after_append]
    simp only [baseAfter_concat] at later
    cases line with
    -- a line that cannot be read ends the load
    | error e => exact takes_error rfl _ _ bus
    | ok record =>
      cases record with
      | data offset bytes =>
        rw [loadRecords]
        -- the bytes of a data record, and if all went well the other lines
        refine takes_then (fun bus₁ granted stored => ?_)
          (takes_storeImageBytes h (baseAfter before + offset.toNat) bytes)
        have rest := later granted stored
        simp only [itemsOfLine, Image.after_byteItems] at rest ⊢
        exact rest
      | endOfFile => exact absurd rfl last
      -- these change the base and ask for nothing
      | segmentBase segment | linearBase upper =>
        exact later (fun _ h => absurd h List.not_mem_nil) nothing
      | segmentStart cs ip =>
        have rest := later (granted ip.toNat_lt) nothing
        rw [itemsOfLine, Image.after_start, UInt16.ofNat_toNat] at rest ⊢
        exact rest
      | linearStart address =>
        rw [loadRecords]
        by_cases inside : address < addressSpace
        · rw [if_pos inside]
          exact later (granted inside) nothing
        · -- a start outside of memory is refused
          have failed : (ImageItem.start address).error? = some (.outsideMemory address) :=
            if_neg inside
          rw [if_neg inside]
          exact takes_error failed _ _ bus

/-- What comes after an end-of-file record is not looked at. -/
theorem loadRecords_of_end (bus : Bus) (base : ℕ) (image : Image)
    (before after : List (Except RecordError Record)) :
    bus.loadRecords base image (before ++ .ok .endOfFile :: after)
      = bus.loadRecords base image before := by
  -- over the lines before the end; any of them may be an error, which ends both loads
  induction before generalizing bus base image with
  | nil => rfl
  | cons line before ih =>
    rw [List.cons_append]
    cases line with
    | error e => rfl
    | ok record =>
      cases record with
      | data offset bytes =>
        rw [loadRecords, loadRecords]
        -- the bytes may have ended the load
        rcases bus.storeImageBytes (base + offset.toNat) bytes with ⟨_ | _, bus'⟩
        · rfl
        · exact ih _ _ _
      | linearStart address =>
        rw [loadRecords, loadRecords]
        split_ifs
        · exact ih _ _ _
        · rfl
      | endOfFile => rfl
      | segmentBase | linearBase | segmentStart => exact ih _ _ _

end Takes

/-! ### Addresses are no wider than they are written -/

section Width

variable {bus bus' : Bus} {lines : List (Except RecordError Record)}

/-- The highest base is that of a linear base record. -/
theorem baseAfter_le (lines : List (Except RecordError Record)) : baseAfter lines ≤ 0xFFFF0000 := by
  -- over the lines, the last base at the end
  induction lines using List.reverseRecOn with
  | nil => exact Nat.zero_le _
  | append_singleton lines line ih =>
    rw [baseAfter_concat]
    unfold base?
    split
    · next segment =>
      -- a segment is shifted by four bits, and an upper half by sixteen
      have := segment.toNat_lt
      simp only [Option.getD_some]
      omega
    · next upper =>
      have := upper.toNat_lt
      simp only [Option.getD_some]
      omega
    · exact ih

/-- The address of a data record fits in 32 bits. -/
theorem baseAfter_add_lt (lines : List (Except RecordError Record)) (offset : Word) :
    baseAfter lines + offset.toNat < 0x100000000 := by
  have := baseAfter_le lines
  have := offset.toNat_lt
  omega

/-- The bytes of a record are counted no further than to the first address outside of memory. -/
theorem le_of_storeImageBytes {address a : ℕ} {bytes : List Byte}
    (h : (bus.storeImageBytes address bytes).1 = .error (.outsideMemory a)) :
    a ≤ max address addressSpace := by
  induction bytes generalizing bus address with
  | nil => exact nomatch h
  | cons value bytes ih =>
    rw [storeImageBytes] at h
    split_ifs at h with inside
    · -- the byte was stored, so the failure is at a later one
      have := ih h
      omega
    · obtain rfl : address = a := by simpa using h
      omega

/-- An address that a load complains of fits in 32 bits. -/
theorem lt_of_loadRecords {before : List (Except RecordError Record)} {image : Image} {a : ℕ}
    (starts : ∀ address, .ok (.linearStart address) ∈ lines → address < 0x100000000)
    (h : (bus.loadRecords (baseAfter before) image lines).1 = .error (.outsideMemory a)) :
    a < 0x100000000 := by
  -- over the lines still to be loaded, with those before deciding the base
  induction lines generalizing bus before image with
  | nil => exact nomatch h
  | cons line lines ih =>
    have later {bus₁ : Bus} {image₁ : Image} (h : (bus₁.loadRecords ((base? line).getD
        (baseAfter before)) image₁ lines).1 = .error (.outsideMemory a)) : a < 0x100000000 := by
      rw [← baseAfter_concat] at h
      exact ih (fun address hmem => starts address (List.mem_cons_of_mem _ hmem)) h
    cases line with
    | error e => exact nomatch h
    | ok record =>
      cases record with
      | data offset bytes =>
        rw [loadRecords] at h
        rcases hout : bus.storeImageBytes (baseAfter before + offset.toNat) bytes
          with ⟨_ | _, bus₁⟩ <;> rw [hout] at h
        · -- the complaint is about a byte of this record
          obtain rfl := Except.error.inj h
          have := baseAfter_add_lt before offset
          have := le_of_storeImageBytes (congrArg Prod.fst hout)
          unfold addressSpace at this
          omega
        · exact later h
      | linearStart address =>
        rw [loadRecords] at h
        split_ifs at h
        · exact later h
        · -- the complaint is about the start address
          obtain rfl : address = a := by simpa using h
          exact starts address List.mem_cons_self
      | endOfFile => exact nomatch h
      | segmentBase | linearBase | segmentStart => exact later h

end Width

/-! ### What an image leaves -/

section Images

variable {bus bus' : Bus} {lines : List (Except RecordError Record)}
  {out : Except Error Image × Bus}

/-- The addresses show what they have shown before, but for some bytes stored in order: the later
ones win, ROM has them as well, and where no chip is there is still nothing. -/
structure Shows (stores : List (Word × Byte)) (bus bus' : Bus) : Prop where
  chips : bus'.OfChips
  nextFree_eq : bus'.nextFree = bus.nextFree
  read : ∀ a, (bus'.read a).1
    = if a.toNat < bus.nextFree then (lastValue? (byteFor? a) stores).getD (bus.read a).1
      else openBus

/-- After the stores the bus shows what was stored. -/
theorem Stores.shows {stores : List (Word × Byte)} (stored : StoresAll stores bus bus')
    (h : bus.OfChips) : Shows stores bus bus' := by
  refine ⟨stored.ofChips h, stored.nextFree_eq, fun a => ?_⟩
  split_ifs with ha
  · obtain ⟨chip, v, hv⟩ := h.exists_answers ha
    rw [(stored.answers hv).read, hv.read]
    rfl
  · rw [(stored.ofChips h).read_of_le (stored.nextFree_eq ▸ Nat.not_lt.mp ha)]

/-- The outcome of loading an image. -/
structure Loads (lines : List (Except RecordError Record)) (bus : Bus)
    (out : Except Error Image × Bus) : Prop where
  succeeds_iff : (∃ image, out.1 = .ok image) ↔ ∀ item ∈ itemsOf lines, item.error? = none
  loaded : ∀ image, out.1 = .ok image →
    image.bytes = (storesOf (itemsOf lines)).length ∧
      image.start = lastValue? ImageItem.start? (itemsOf lines) ∧
      Shows (storesOf (itemsOf lines)) bus out.2
  failed : ∀ e, out.1 = .error e → ∃ before item after,
    itemsOf lines = before ++ item :: after ∧ (∀ earlier ∈ before, earlier.error? = none) ∧
      item.error? = some e ∧ Shows (storesOf before) bus out.2

/-- What is taken in order is loaded in order. -/
theorem Takes.loads (h : bus.OfChips)
    (takes : Takes (itemsOf lines) (Image.empty.after (itemsOf lines)) bus out) :
    Loads lines bus out := by
  cases takes with
  -- everything was granted: the load succeeds, with all that was stored
  | all granted result stored =>
    refine ⟨iff_of_true ⟨_, result⟩ granted, fun image hout => ?_, fun e hout => ?_⟩
    · obtain rfl := Except.ok.inj (result.symm.trans hout)
      exact ⟨Nat.zero_add _, Option.or_none, stored.shows h⟩
    · exact nomatch result.symm.trans hout
  | @upTo before after item e split granted failed result stored =>
    refine ⟨iff_of_false ?_ fun all => ?_, fun image hout => ?_, fun e' hout => ?_⟩
    · -- one item was refused: the load fails with its error, and with what was stored before it
      rintro ⟨image, hout⟩
      exact nomatch result.symm.trans hout
    · have none := all item (by simp [split])
      exact nomatch failed.symm.trans none
    · exact nomatch result.symm.trans hout
    · obtain rfl := Except.error.inj (result.symm.trans hout)
      exact ⟨before, item, after, split, granted, failed, stored.shows h⟩

/-- A message at the end does not show. -/
theorem Loads.congr {out' : Except Error Image × Bus} (h : Loads lines bus out)
    (result : out'.1 = out.1) (same : SameDevices out.2 out'.2) :
    Loads lines bus out' := by
  -- what is shown depends on the devices
  have shows {stores : List (Word × Byte)} (hs : Shows stores bus out.2) :
      Shows stores bus out'.2 :=
    ⟨hs.chips.congr same, same.nextFree_eq.trans hs.nextFree_eq,
      fun a => (hs.chips.read_congr same a).trans (hs.read a)⟩
  refine ⟨result ▸ h.succeeds_iff, fun image hout => ?_, fun e hout => ?_⟩
  · obtain ⟨bytes, start, hs⟩ := h.loaded image (result ▸ hout)
    exact ⟨bytes, start, shows hs⟩
  · obtain ⟨before, item, after, split, granted, failed, hs⟩ := h.failed e (result ▸ hout)
    exact ⟨before, item, after, split, granted, failed, shows hs⟩

/-- Loading a text is loading its records, with a message in the end. -/
theorem loadImage_eq (bus : Bus) (text : String) :
    (bus.loadImage text).1 = (bus.loadRecords 0 Image.empty (recordsOf text)).1 ∧
      SameDevices (bus.loadRecords 0 Image.empty (recordsOf text)).2 (bus.loadImage text).2 := by
  unfold loadImage
  rcases bus.loadRecords 0 Image.empty (recordsOf text) with ⟨_ | _, bus'⟩
  · exact ⟨rfl, .of_eq rfl⟩
  · exact ⟨rfl, ⟨rfl, rfl⟩⟩

/-- A start address is read from four bytes. -/
theorem lt_of_linearStart_mem {text : String} {address : ℕ}
    (h : .ok (.linearStart address) ∈ recordsOf text) : address < 0x100000000 := by
  obtain ⟨line, -, decoded⟩ := List.mem_map.mp h
  -- the address was put together from two words
  have parts {type : Byte} {offset : Word} {payload : List Byte}
      (h : Record.ofParts type offset payload = .ok (.linearStart address)) :
      address < 0x100000000 := by
    unfold Record.ofParts at h
    split at h <;> simp only [Except.ok.injEq, Record.linearStart.injEq, reduceCtorEq] at h
    next uh ul high low _ =>
      have := (wordOf uh ul).toNat_lt
      have := (wordOf high low).toNat_lt
      omega
  unfold Record.decode Record.ofBytes at decoded
  dsimp only at decoded
  -- whatever is wrong with a line, it is no start record then
  split at decoded <;> try contradiction
  split_ifs at decoded
  split at decoded <;> try contradiction
  split_ifs at decoded
  split at decoded <;> try contradiction
  split_ifs at decoded
  exact parts decoded

/-- **Loading an image is a fold over its records.** Whatever chips are on the bus and whatever the
records are, the items of the records up to the first end-of-file record are granted in order.
Loading succeeds exactly if each of them can be: each line is a record, and each byte and each start
address has an address in memory. Then memory is what it was with all bytes stored, and the image
tells how many there are and which start address came last. If it fails, the error is that of the
first item that cannot be granted, and memory has the bytes before it and no others. What follows an
end-of-file record does not matter. Addresses are counted in 32 bits without overflow, to the one in
an error.

The parts about a text take its lines from the library's own reader (`Bus.recordsOf`). The parts
about a list of records and unreadable lines do not depend on the reader that has made it. -/
theorem image_loads_in_order (h : bus.OfChips) :
    (∀ lines, Loads lines bus (bus.loadRecords 0 Image.empty lines)) ∧
      (∀ text, Loads (recordsOf text) bus (bus.loadImage text)) ∧
      (∀ before after, bus.loadRecords 0 Image.empty (before ++ .ok .endOfFile :: after)
        = bus.loadRecords 0 Image.empty before) ∧
      (∀ lines (offset : Word), baseAfter lines + offset.toNat < 0x100000000) ∧
      ∀ text a, (bus.loadImage text).1 = .error (.outsideMemory a) → a < 0x100000000 := by
  have loads (lines : List (Except RecordError Record)) :
      Loads lines bus (bus.loadRecords 0 Image.empty lines) :=
    (takes_loadRecords h [] lines Image.empty).loads h
  refine ⟨loads, fun text => ?_, loadRecords_of_end bus 0 Image.empty, baseAfter_add_lt,
    fun text a hout => ?_⟩
  · -- a text is loaded as its records are
    obtain ⟨result, same⟩ := loadImage_eq bus text
    exact (loads _).congr result same
  · rw [(loadImage_eq bus text).1] at hout
    have start : (bus.loadRecords (baseAfter []) Image.empty (recordsOf text)).1
        = .error (.outsideMemory a) := hout
    exact lt_of_loadRecords (fun _ => lt_of_linearStart_mem) start

/-- RAM with ROM behind it. -/
def twoChips : Bus := empty.serveAll [.attach .ram "low" 2, .attach .rom "high" 2]

/-- A start address, bytes across the border of the two chips, and a line after the end that is no
record. -/
def acrossTheBorder : List (Except RecordError Record) :=
  [.ok (.linearStart 1), .ok (.data 1 [0xAA, 0xBB]), .ok .endOfFile, .error .tooShort]

/-- A record that goes across the border of two chips, and a start address. -/
theorem image_loads_in_order_across :
    twoChips.OfChips ∧
      (twoChips.loadRecords 0 Image.empty acrossTheBorder).1 = .ok { bytes := 2, start := some 1 } ∧
      ((twoChips.loadRecords 0 Image.empty acrossTheBorder).2.read 2).1 = 0xBB := by
  have h : twoChips.OfChips := ofChips_serveAll ofChips_empty _
  have loads := (image_loads_in_order h).1 acrossTheBorder
  have granted : ∀ item ∈ itemsOf acrossTheBorder, item.error? = none := by
    simp [itemsOf, acrossTheBorder, itemsAfter, itemsOfLine, isEnd, byteItems, baseAfter,
      ImageItem.error?, addressSpace, lastValue?, base?]
  obtain ⟨⟨bytes, start⟩, result⟩ := loads.succeeds_iff.mpr granted
  obtain ⟨hbytes, hstart, shows⟩ := loads.loaded _ result
  refine ⟨h, result.trans ?_, (shows.read 2).trans ?_⟩
  · obtain rfl : bytes = 2 := hbytes
    obtain rfl : start = some 1 := hstart
    rfl
  · rw [if_pos (by decide +kernel)]
    rfl

end Images

end Bus

end Machine6809
