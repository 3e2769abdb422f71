import Machine6809.Word

/-!
# Hexadecimal text

Every number the machine shows is written in upper-case hexadecimal with at least a given count
of digits: two for a byte, four for a word. `hexPairs` writes a run of bytes and
`bytesOfHexPairs?` reads one back; the reader takes digits of either case.
-/

namespace Machine6809

/-- The upper-case hexadecimal digit of a number below sixteen. -/
def hexDigit (n : Nat) : Char :=
  if n < 10 then Char.ofNat (0x30 + n) else Char.ofNat (0x37 + n)

/-- The value of a hexadecimal digit, upper or lower case. -/
def hexDigitValue? (c : Char) : Option Nat :=
  if '0' ≤ c ∧ c ≤ '9' then some (c.toNat - 0x30)
  else if 'A' ≤ c ∧ c ≤ 'F' then some (c.toNat - 0x37)
  else if 'a' ≤ c ∧ c ≤ 'f' then some (c.toNat - 0x57)
  else none

/-- The hexadecimal digits of a number, most significant first, and at least `width` of them. -/
def hexDigits (width n : Nat) : List Char :=
  if n < 16 then List.replicate (width - 1) '0' ++ [hexDigit n]
  else hexDigits (width - 1) (n / 16) ++ [hexDigit (n % 16)]
termination_by n
decreasing_by omega

/-- A number in hexadecimal with at least `width` digits. -/
def hex (width n : Nat) : String := String.ofList (hexDigits width n)

/-- A byte as two hexadecimal digits. -/
def hexByte (b : Byte) : String := hex 2 b.toNat

/-- A word as four hexadecimal digits. -/
def hexWord (w : Word) : String := hex 4 w.toNat

/-- A text in single quotes, as values stand in messages. -/
def quoted (s : String) : String := "'" ++ s ++ "'"

/-- A run of bytes as pairs of digits without separators. -/
def hexPairs (bytes : List Byte) : String := String.join (bytes.map hexByte)

/-- Read pairs of digits; `none` if a character is no digit or one digit is left over. -/
def bytesOfHexPairs? : List Char → Option (List Byte)
  | [] => some []
  | [_] => none
  | high :: low :: rest => do
    let h ← hexDigitValue? high
    let l ← hexDigitValue? low
    let bytes ← bytesOfHexPairs? rest
    return UInt8.ofNat (16 * h + l) :: bytes

end Machine6809
