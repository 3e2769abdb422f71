import Machine6809.Text.Hex

/-!
# Records of a HEX image

An image is written as lines of text. Each line is a record: a colon, and then in hexadecimal the
number of data bytes, a 16-bit offset, the type, the data and a byte that brings the sum of all to
zero. `Record.decode` reads a line and names the first thing that is wrong with it, in a fixed
order of checks.
-/

namespace Machine6809

/-- What a record says. -/
inductive Record where
  /-- Bytes at an offset from the base in force. -/
  | data (offset : Word) (bytes : List Byte)
  | endOfFile
  /-- The base becomes sixteen times this. -/
  | segmentBase (segment : Word)
  /-- The start address as a code segment and an offset in it. -/
  | segmentStart (cs ip : Word)
  /-- The base gets this as its upper half. -/
  | linearBase (upper : Word)
  /-- The start address as a whole. -/
  | linearStart (address : Nat)
  deriving DecidableEq, Repr, Inhabited

/-- What is wrong with a line. -/
inductive RecordError where
  | missingStartCode
  | invalidCharacters
  | tooShort
  | tooLong
  | oddDigits
  /-- The sum that was computed and the one in the record. -/
  | checksum (computed given : Byte)
  /-- The data are not as long as the record says. -/
  | lengthMismatch
  | unsupportedType (type : Byte)
  /-- The data are not as long as the type asks. -/
  | wrongLengthForType
  deriving DecidableEq, Repr, Inhabited

/-- The error in words. -/
def RecordError.message : RecordError → String
  | .missingStartCode => "missing start code ':'"
  | .invalidCharacters => "invalid characters encountered in record"
  | .tooShort => "too short"
  | .tooLong => "too long"
  | .oddDigits => "record does not contain a whole number of bytes"
  | .checksum computed given =>
    s!"invalid checksum {quoted (hexByte computed)}, expecting {quoted (hexByte given)}"
  | .lengthMismatch => "payload length does not match record header"
  | .unsupportedType type => s!"unsupported IHEX record type {quoted (hexByte type)}"
  | .wrongLengthForType => "payload length invalid for record type"

namespace Record

/-- The fewest digits of a record: a count, an offset, a type and a checksum. -/
def minDigits : Nat := 10

/-- The most digits of a record: as many data bytes as a count can say. -/
def maxDigits : Nat := 520

/-- The byte that brings the sum of a record's bytes to zero. -/
def checksumOf (bytes : List Byte) : Byte := 0 - bytes.foldl (· + ·) 0

/-- What the data of a type stand for. -/
def ofParts (type : Byte) (offset : Word) (payload : List Byte) : Except RecordError Record :=
  match type.toNat, payload with
  | 0, bytes => .ok (.data offset bytes)
  | 1, [] => .ok .endOfFile
  | 2, [h, l] => .ok (.segmentBase (wordOf h l))
  | 3, [ch, cl, h, l] => .ok (.segmentStart (wordOf ch cl) (wordOf h l))
  | 4, [h, l] => .ok (.linearBase (wordOf h l))
  | 5, [uh, ul, h, l] => .ok (.linearStart (65536 * (wordOf uh ul).toNat + (wordOf h l).toNat))
  | t, _ => .error (if t ≤ 5 then .wrongLengthForType else .unsupportedType type)

/-- Read the bytes of a record, the checksum last. -/
def ofBytes (bytes : List Byte) : Except RecordError Record :=
  let body := bytes.dropLast
  let given := bytes.getLastD 0
  if checksumOf body ≠ given then .error (.checksum (checksumOf body) given)
  else
    match body with
    | count :: high :: low :: type :: payload =>
      if payload.length ≠ count.toNat then .error .lengthMismatch
      else ofParts type (wordOf high low) payload
    | _ => .error .tooShort

/-- Read a line. -/
def decode : List Char → Except RecordError Record
  | ':' :: digits =>
    if digits.any (fun c => (hexDigitValue? c).isNone) then .error .invalidCharacters
    else if digits.length < minDigits then .error .tooShort
    else if maxDigits < digits.length then .error .tooLong
    else
      match bytesOfHexPairs? digits with
      | none => .error .oddDigits
      | some bytes => ofBytes bytes
  | _ => .error .missingStartCode

end Record

end Machine6809
