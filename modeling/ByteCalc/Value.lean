import ByteCalc.Number.Shortest

/-! Values are binary64 numbers, with their arithmetic, their comparison and their text. -/

namespace ByteCalc

/-- A binary64 number, given by its word. -/
structure Value where
  /-- Sign, exponent and fraction, from the highest bit down. -/
  bits : UInt64
deriving DecidableEq, Repr

namespace Value

/-- The value of a floating-point number. -/
def ofFloat (number : Float) : Value :=
  ⟨number.toBits⟩

/-- The floating-point number with the same word. -/
def toFloat (value : Value) : Float :=
  Float.ofBits value.bits

/-- The value a number literal denotes. -/
def ofLiteral (literal : String) : Value :=
  -- Literals have no sign, so the word has its sign bit clear.
  ⟨UInt64.ofNat (Decimal.ofText literal.toList).toWord⟩

/-- The word without its sign bit. -/
def magnitude (value : Value) : Nat :=
  (value.bits &&& 0x7FFFFFFFFFFFFFFF).toNat

/-- Whether the sign bit is set, as it also is for negative zero. -/
def isNegative (value : Value) : Bool :=
  value.bits >>> 63 = 1

/-- Whether the value is zero of either sign. -/
def isZero (value : Value) : Bool :=
  value.magnitude = 0

/-- Whether the value is not a number. -/
def isNaN (value : Value) : Bool :=
  -- Words above infinity spell no number, whatever their fraction is.
  Binary64.infinity < value.magnitude

/-- Numeric equality: the two zeros agree, and a value that is no number equals nothing. -/
def equals (left right : Value) : Bool :=
  !left.isNaN && !right.isNaN && (left.bits = right.bits || left.isZero && right.isZero)

instance : BEq Value := ⟨equals⟩

/-- The value of the opposite sign. -/
def negate (value : Value) : Value :=
  -- Only the sign bit changes, also for zeros and for values that are no numbers.
  ⟨value.bits ^^^ 0x8000000000000000⟩

/-- The rounded sum. -/
def add (left right : Value) : Value :=
  ofFloat (left.toFloat + right.toFloat)

/-- The rounded difference. -/
def subtract (left right : Value) : Value :=
  ofFloat (left.toFloat - right.toFloat)

/-- The rounded product. -/
def multiply (left right : Value) : Value :=
  ofFloat (left.toFloat * right.toFloat)

/-- The rounded quotient. -/
def divide (left right : Value) : Value :=
  ofFloat (left.toFloat / right.toFloat)

/-- The text of the absolute value: the shortest decimal that reads back, or `inf`. -/
def absText (value : Value) : String :=
  if value.magnitude = Binary64.infinity then "inf"
  else String.ofList (Decimal.shortest value.magnitude).toText

/-- The text shown for the value, signed unless it is not a number. -/
def toText (value : Value) : String :=
  if value.isNaN then "NaN"
  else if value.isNegative then "-" ++ value.absText
  else value.absText

/-- The zeros of either sign are equal, and still have texts of their own. -/
example : equals ⟨0⟩ ⟨0x8000000000000000⟩ ∧ toText ⟨0x8000000000000000⟩ = "-0" := by
  decide +kernel

end Value

end ByteCalc
