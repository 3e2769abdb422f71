/-!
# Decimal fractions

A quotient is first brought to the nearest number with a significand of 53 bits, as floating point
hardware would, and that number is then written with one decimal place. Both roundings go to
the nearest value, and from the middle to the even neighbour.
-/

namespace Machine6809

/-- The integer nearest to a quotient, the even one if two are equally near. -/
def roundHalfEven (num den : Nat) : Nat :=
  let q := num / den
  let r := num % den
  if 2 * r < den || (2 * r == den && q % 2 == 0) then q else q + 1

/-- The places after the binary point that fill 53 bits for a quotient of at least one. -/
def binaryPlaces (num den : Nat) : Nat := 52 - (num / den).log2

/-- The significand of the floating point number nearest to a quotient. -/
def significand (num den : Nat) : Nat := roundHalfEven (num <<< binaryPlaces num den) den

/-- A quotient of at least one, as a floating point number in tenths. -/
def tenths (num den : Nat) : Nat :=
  roundHalfEven (10 * significand num den) (1 <<< binaryPlaces num den)

/-- A quotient of at least one with one decimal place. -/
def oneDecimal (num den : Nat) : String := s!"{tenths num den / 10}.{tenths num den % 10}"

end Machine6809
