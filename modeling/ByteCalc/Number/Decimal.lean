import ByteCalc.Number.Binary64

/-! Decimals with a fixed number of places, as literals spell them and as values are printed. -/

namespace ByteCalc

/-- The number `digits / 10 ^ places`. -/
structure Decimal where
  /-- All the digits, read as one whole number. -/
  digits : Nat
  /-- How many of the digits stand after the point. -/
  places : Nat
deriving DecidableEq, Repr

namespace Decimal

/-- The decimal a literal spells: digits, and after a point perhaps more digits. -/
def ofText (text : List Char) : Decimal :=
  -- The character after the first digits, if there is one, is the point.
  let whole := text.takeWhile Char.isDigit
  let fraction := (text.dropWhile Char.isDigit).drop 1
  ⟨Nat.ofDigitChars 10 (whole ++ fraction) 0, fraction.length⟩

/-- The positional spelling, with a point only when digits stand after it. -/
def toText (decimal : Decimal) : List Char :=
  -- The part after the point keeps its leading zeros, so its length is the number of places.
  let whole := Nat.toDigits 10 (decimal.digits / Nat.pow 10 decimal.places)
  let fraction := Nat.toDigits 10 (decimal.digits % Nat.pow 10 decimal.places)
  if decimal.places = 0 then whole else whole ++ '.' :: fraction.leftpad decimal.places '0'

/-- The binary64 word nearest to the decimal. -/
def toWord (decimal : Decimal) : Nat :=
  Binary64.nearest decimal.digits (Nat.pow 10 decimal.places)

end Decimal

end ByteCalc
