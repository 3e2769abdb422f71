import Machine6809.Text.Hex

/-!
# Reading numbers

An unsigned number is a run of digits of some radix, with at most one plus sign in front. The
digits are looked at from left to right, and the first that is no digit, or that takes the number
past its limit, decides how the reading fails.
-/

namespace Machine6809

/-- Why a text is not a number. -/
inductive NumberError where
  | empty
  | invalidDigit
  | tooLarge
  deriving DecidableEq, Repr, Inhabited

/-- The reason in words. -/
def NumberError.message : NumberError → String
  | .empty => "cannot parse integer from empty string"
  | .invalidDigit => "invalid digit found in string"
  | .tooLarge => "number too large to fit in target type"

/-- The value of a digit below a radix of at most sixteen. -/
def digitValue? (radix : Nat) (c : Char) : Option Nat :=
  (hexDigitValue? c).filter (· < radix)

/-- Read digits after those that make up `acc`, none taking the number past `limit`. -/
def readDigits (radix limit : Nat) : (acc : Nat) → List Char → Except NumberError Nat
  | acc, [] => .ok acc
  | acc, c :: rest =>
    match digitValue? radix c with
    | none => .error .invalidDigit
    | some d =>
      if limit < radix * acc + d then .error .tooLarge
      else readDigits radix limit (radix * acc + d) rest

/-- Read an unsigned number of at most `limit`. -/
def readUnsigned (radix limit : Nat) : List Char → Except NumberError Nat
  | [] => .error .empty
  | ['+'] => .error .invalidDigit
  | '+' :: digits => readDigits radix limit 0 digits
  | digits => readDigits radix limit 0 digits

/-- Read a word in hexadecimal. -/
def readHexWord (s : String) : Except NumberError Word :=
  (readUnsigned 16 0xFFFF s.toList).map UInt16.ofNat

end Machine6809
