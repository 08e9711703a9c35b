/-! Binary64 words below the sign bit, read as exact counts of the smallest positive value. -/

namespace ByteCalc

namespace Binary64

/-- The word of infinity, the first word above every finite magnitude. -/
def infinity : Nat := 0x7FF0000000000000

/-- A finite magnitude as a count of units, where a unit is `2 ^ -1074`. -/
def units (word : Nat) : Nat :=
  -- The lowest exponent has no hidden bit, and every later one doubles the unit of the last place.
  let exponent := word / Nat.pow 2 52
  if exponent = 0 then word
  else (Nat.pow 2 52 + word % Nat.pow 2 52) * Nat.pow 2 (exponent - 1)

/-- A quotient rounded to the nearest whole number, a half going to the even neighbour. -/
def divideEven (numerator denominator : Nat) : Nat :=
  -- The rest after the division is compared with half of the denominator.
  let quotient := numerator / denominator
  let rest := numerator % denominator
  if 2 * rest < denominator ∨ 2 * rest = denominator ∧ quotient % 2 = 0 then quotient
  else quotient + 1

/-- The word nearest to a fraction, a half going to the even word and an overflow to infinity. -/
def nearest (numerator denominator : Nat) : Nat :=
  -- Words count upward through the finite magnitudes, so a carry out of the fraction lands right.
  let scaled := numerator * Nat.pow 2 1074
  let shift := (scaled / denominator).log2 - 52
  min infinity (shift * Nat.pow 2 52 + divideEven scaled (denominator * Nat.pow 2 shift))

end Binary64

end ByteCalc
