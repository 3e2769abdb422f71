import Machine6809.Bus.Basic
import Machine6809.Text.Lines

/-!
# Loading a HEX image

The records of an image are taken one after the other. Records with a base move the addresses of
the data records after them; the last start record names the start address. Loading ends at the
end-of-file record, and at the first line that is no record or address that does not exist. What
was stored before an error stays.
-/

namespace Machine6809

/-- What is known of an image while it is being loaded, and when it has been. -/
structure Image where
  /-- The data bytes met so far. -/
  bytes : Nat
  /-- The start address, if a record names one. -/
  start : Option Word
  deriving DecidableEq, Repr, Inhabited

/-- An image of which nothing has been seen. -/
def Image.empty : Image := { bytes := 0, start := none }

namespace Bus

/-- Store a byte of an image. -/
def storeImageByte (bus : Bus) (address : Word) (value : Byte) : Bus :=
  match bus.loaderWrite address value with
  | (true, bus) => bus
  | (false, bus) => bus.note (.nothingBehind address)

/-- Store bytes of an image upward from an address, up to the first that lies outside. -/
def storeImageBytes (bus : Bus) (address : Nat) : List Byte → Except Error Unit × Bus
  | [] => (.ok (), bus)
  | b :: bytes =>
    if address < addressSpace then
      (bus.storeImageByte (UInt16.ofNat address) b).storeImageBytes (address + 1) bytes
    else (.error (.outsideMemory address), bus)

/-- Take the records of an image, with `base` added to the offsets of the data. -/
def loadRecords (bus : Bus) (base : Nat) (image : Image) :
    List (Except RecordError Record) → Except Error Image × Bus
  | [] => (.ok image, bus)
  | .error e :: _ => (.error (.record e), bus)
  | .ok record :: rest =>
    match record with
    | .data offset bytes =>
      match bus.storeImageBytes (base + offset.toNat) bytes with
      | (.ok (), bus) =>
        bus.loadRecords base { image with bytes := image.bytes + bytes.length } rest
      | (.error e, bus) => (.error e, bus)
    | .endOfFile => (.ok image, bus)
    | .segmentBase segment => bus.loadRecords (16 * segment.toNat) image rest
    | .linearBase upper => bus.loadRecords (65536 * upper.toNat) image rest
    -- the segment is not looked at
    | .segmentStart _ ip => bus.loadRecords base { image with start := some ip } rest
    | .linearStart address =>
      if address < addressSpace then
        bus.loadRecords base { image with start := some (UInt16.ofNat address) } rest
      else (.error (.outsideMemory address), bus)

/-- The records of a text, empty lines left out. -/
def recordsOf (text : String) : List (Except RecordError Record) :=
  ((linesOf text.toList).filter (· ≠ [])).map Record.decode

/-- Load an image. -/
def loadImage (bus : Bus) (text : String) : Except Error Image × Bus :=
  match bus.loadRecords 0 Image.empty (recordsOf text) with
  | (.ok image, bus) => (.ok image, bus.note (.imageLoaded image.bytes))
  | (.error e, bus) => (.error e, bus)

end Bus

end Machine6809
