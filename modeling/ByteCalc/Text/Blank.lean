/-! Blank characters, which are those with the Unicode property of white space. -/

namespace ByteCalc

/-- The ranges of blank characters, first and last code point. -/
def blankRanges : List (Nat × Nat) :=
  [(0x09, 0x0D), (0x20, 0x20), (0x85, 0x85), (0xA0, 0xA0), (0x1680, 0x1680), (0x2000, 0x200A),
    (0x2028, 0x2029), (0x202F, 0x202F), (0x205F, 0x205F), (0x3000, 0x3000)]

/-- Whether a character is blank. -/
def isBlank (char : Char) : Bool :=
  blankRanges.any fun range => range.1 ≤ char.toNat && char.toNat ≤ range.2

/-- Every ASCII white space character is blank. -/
theorem isBlank_of_isWhitespace {char : Char} (blank : char.isWhitespace) : isBlank char := by
  -- There are four of them, and each lies in one of the first two ranges.
  simp only [Char.isWhitespace, Bool.or_eq_true, decide_eq_true_eq] at blank
  rcases blank with ((rfl | rfl) | rfl) | rfl <;> decide

/-- The text without the blanks at its end. -/
def trimBlanksEnd (text : String) : String :=
  String.ofList (text.toList.reverse.dropWhile isBlank).reverse

/-- The text without the blanks at its two ends. -/
def trimBlanks (text : String) : String :=
  -- The end of a text is the start of the reversed text.
  let fromStart := text.toList.dropWhile isBlank
  String.ofList (fromStart.reverse.dropWhile isBlank).reverse

end ByteCalc
