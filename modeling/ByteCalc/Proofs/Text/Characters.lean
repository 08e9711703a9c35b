import ByteCalc.Text.Blank
import ByteCalc.Text.Padding
import ByteCalc.Value

/-! The characters that numbers, padded texts and values are written with. -/

namespace ByteCalc

section Padding

variable {width : Nat} {fill char : Char} {text : String}

/-- A text is padded on its left with as many characters as it is too short. -/
theorem toList_padLeft (width : Nat) (fill : Char) (text : String) :
    (padLeft width fill text).toList =
      List.replicate (width - text.toList.length) fill ++ text.toList := by
  simp [padLeft, List.leftpad]

/-- A text is padded on its right with as many blanks as it is too short. -/
theorem toList_padRight (width : Nat) (text : String) :
    (padRight width text).toList =
      text.toList ++ List.replicate (width - text.toList.length) ' ' := by
  simp [padRight, List.rightpad]

/-- Only fill characters are added to a text on its left. -/
theorem mem_padLeft (mem : char ∈ (padLeft width fill text).toList) :
    char = fill ∨ char ∈ text.toList := by
  -- The fill stands in front of the text.
  rw [toList_padLeft] at mem
  rcases List.mem_append.1 mem with filled | inside
  · exact .inl (List.eq_of_mem_replicate filled)
  · exact .inr inside

/-- Only blanks are added to a text on its right. -/
theorem mem_padRight (mem : char ∈ (padRight width text).toList) :
    char = ' ' ∨ char ∈ text.toList := by
  -- The fill stands behind the text.
  rw [toList_padRight] at mem
  rcases List.mem_append.1 mem with inside | filled
  · exact .inr inside
  · exact .inl (List.eq_of_mem_replicate filled)

end Padding

section Numbers

/-- The text of a number has its decimal digits. -/
theorem toList_toString (number : Nat) : (toString number).toList = Nat.toDigits 10 number := by
  -- Numbers are shown by the function that makes the digits.
  show (Nat.repr number).toList = _
  rw [Nat.repr_eq_ofList_toDigits, String.toList_ofList]

/-- A number is written with digits alone. -/
theorem isDigit_of_mem_toString {number : Nat} {char : Char}
    (mem : char ∈ (toString number).toList) : char.isDigit := by
  -- Ten is a base whose digits are all below it.
  rw [toList_toString] at mem
  exact Nat.isDigit_of_mem_toDigits (by decide) (by decide) mem

/-- Every number has a digit, and zero has one too. -/
theorem toString_ne_nil (number : Nat) : (toString number).toList ≠ [] := by
  rw [toList_toString]
  exact Nat.toDigits_ne_nil

/-- Two numbers that are written alike are the same. -/
theorem toString_inj {first second : Nat}
    (same : (toString first).toList = (toString second).toList) : first = second := by
  -- The digits read back as the number.
  rw [toList_toString, toList_toString] at same
  have read := congrArg (Nat.ofDigitChars 10 · 0) same
  simpa using read

end Numbers

namespace Decimal

/-- A decimal is written with digits, and perhaps a point. -/
theorem mem_toText {decimal : Decimal} {char : Char} (mem : char ∈ decimal.toText) :
    char.isDigit ∨ char = '.' := by
  have digit {number : Nat} (mem : char ∈ Nat.toDigits 10 number) : char.isDigit :=
    Nat.isDigit_of_mem_toDigits (by decide) (by decide) mem
  -- There is a point only if there are places behind it.
  simp only [toText] at mem
  split at mem
  · -- Without places, all characters are digits of one number.
    exact .inl (digit mem)
  · -- With places, there are two numbers and the point between them.
    rcases List.mem_append.1 mem with whole | behind
    · exact .inl (digit whole)
    · rcases List.mem_cons.1 behind with point | fraction
      · exact .inr point
      · -- The zeros that fill up the places are digits too.
        rcases List.mem_append.1 fraction with filled | places
        · rw [List.eq_of_mem_replicate filled]
          exact .inl rfl
        · exact .inl (digit places)

/-- Every decimal is written with a character at least. -/
theorem toText_ne_nil (decimal : Decimal) : decimal.toText ≠ [] := by
  -- There is a digit in front of the point, if there is a point at all.
  simp only [toText]
  split
  · exact Nat.toDigits_ne_nil
  · exact List.append_ne_nil_of_right_ne_nil _ (List.cons_ne_nil _ _)

end Decimal

namespace Value

/-- The characters of the text of a value: those of a signed decimal, of `inf` and of `NaN`. -/
def isTextChar (char : Char) : Bool :=
  char.isDigit || ['-', '.', 'i', 'n', 'f', 'N', 'a'].contains char

/-- The text of an absolute value consists of these characters. -/
theorem isTextChar_of_mem_absText {value : Value} {char : Char}
    (mem : char ∈ value.absText.toList) : isTextChar char := by
  unfold absText at mem
  split at mem
  · -- The three letters of infinity are in the table.
    have letters : "inf".toList.all isTextChar := by decide
    exact List.all_eq_true.1 letters char mem
  · rw [String.toList_ofList] at mem
    rcases Decimal.mem_toText mem with digit | rfl
    · simp [isTextChar, digit]
    · rfl

/-- The text of a value has no other characters. -/
theorem isTextChar_of_mem {value : Value} {char : Char} (mem : char ∈ value.toText.toList) :
    isTextChar char := by
  -- A value that is a number is its absolute value, perhaps behind a sign.
  unfold toText at mem
  split at mem
  · -- The three letters of this text are in the table too.
    have letters : "NaN".toList.all isTextChar := by decide
    exact List.all_eq_true.1 letters char mem
  · split at mem
    · rcases List.mem_append.1 (String.toList_append ▸ mem) with sign | behind
      · obtain rfl := List.mem_singleton.1 sign
        rfl
      · exact isTextChar_of_mem_absText behind
    · -- Without a sign there is nothing but the absolute value.
      exact isTextChar_of_mem_absText mem

/-- No absolute value is written as nothing. -/
theorem absText_ne_nil (value : Value) : value.absText.toList ≠ [] := by
  -- A value is written as three letters or as a decimal.
  unfold absText
  split
  · decide
  · rw [String.toList_ofList]
    exact Decimal.toText_ne_nil _

/-- No value is written as nothing. -/
theorem toText_ne_nil (value : Value) : value.toText.toList ≠ [] := by
  -- Behind the sign, if there is one, the absolute value is written.
  unfold toText
  split
  · decide
  · split
    · rw [String.toList_append]
      exact List.append_ne_nil_of_right_ne_nil _ value.absText_ne_nil
    · exact value.absText_ne_nil

end Value

end ByteCalc
