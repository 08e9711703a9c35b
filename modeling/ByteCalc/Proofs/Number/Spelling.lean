import ByteCalc.Number.Decimal
import ByteCalc.Proofs.Token.Longest

/-! Decimals are spelled as number tokens, and are read back from their spelling. -/

namespace ByteCalc

namespace Decimal

/-- The digits in front of the point. -/
def whole (decimal : Decimal) : List Char :=
  Nat.toDigits 10 (decimal.digits / 10 ^ decimal.places)

/-- The digits behind the point, with as many zeros in front of them as there are places for. -/
def fraction (decimal : Decimal) : List Char :=
  (Nat.toDigits 10 (decimal.digits % 10 ^ decimal.places)).leftpad decimal.places '0'

variable {decimal : Decimal} {char : Char}

/-- A decimal without places is written without a point. -/
theorem toText_eq (decimal : Decimal) :
    decimal.toText =
      if decimal.places = 0 then decimal.whole else decimal.whole ++ '.' :: decimal.fraction :=
  rfl

/-- The digits in front of the point are digits of a number. -/
theorem isDigit_of_mem_whole (mem : char ∈ decimal.whole) : char.isDigit = true :=
  Nat.isDigit_of_mem_toDigits (by decide) (by decide) mem

/-- The digits behind the point are digits of a number, or zeros. -/
theorem isDigit_of_mem_fraction (mem : char ∈ decimal.fraction) : char.isDigit = true := by
  -- The zeros that are filled in are digits as well.
  rcases List.mem_append.1 mem with zero | digit
  · rw [List.eq_of_mem_replicate zero]
    rfl
  · exact Nat.isDigit_of_mem_toDigits (by decide) (by decide) digit

/-- The digits in front of the point read back. -/
theorem ofDigitChars_whole :
    Nat.ofDigitChars 10 decimal.whole 0 = decimal.digits / 10 ^ decimal.places :=
  Nat.ofDigitChars_ten_toDigits

/-- The digits behind the point read back without the zeros in front of them. -/
theorem ofDigitChars_fraction :
    Nat.ofDigitChars 10 decimal.fraction 0 = decimal.digits % 10 ^ decimal.places := by
  -- Leading zeros count for nothing.
  rw [fraction, List.leftpad, Nat.ofDigitChars_append, Nat.ofDigitChars_replicate_zero,
    Nat.mul_zero, Nat.ofDigitChars_ten_toDigits]

/-- There is a digit for each of the places. -/
theorem length_fraction (some : decimal.places ≠ 0) :
    decimal.fraction.length = decimal.places := by
  -- The number behind the point has no more digits than there are places.
  have fits : decimal.digits % 10 ^ decimal.places < 10 ^ decimal.places :=
    Nat.mod_lt _ (Nat.pow_pos (by decide))
  rw [fraction, List.length_leftpad]
  exact Nat.max_eq_left ((Nat.length_toDigits_le_iff (by decide) (Nat.pos_of_ne_zero some)).2 fits)

/-- The spelling of a decimal is a number token. -/
theorem toText_form (decimal : Decimal) : Form .number decimal.toText := by
  have nonempty : decimal.whole ≠ [] := Nat.toDigits_ne_nil
  rw [toText_eq]
  split
  · -- Without a point there are the digits alone.
    exact .whole nonempty fun _ => isDigit_of_mem_whole
  next some =>
    -- With a point there are places, and so there are digits behind it.
    have present : decimal.fraction ≠ [] := fun none => some <| by
      rw [← length_fraction some, none, List.length_nil]
    exact .fraction nonempty (fun _ => isDigit_of_mem_whole) present fun _ =>
      isDigit_of_mem_fraction

/-- The spelling of a decimal begins with a digit, and so with no filler. -/
theorem toText_stands (decimal : Decimal) : Stands decimal.toText := by
  have nonempty : decimal.whole ≠ [] := Nat.toDigits_ne_nil
  obtain ⟨digit, digits, spelled⟩ := List.exists_cons_of_ne_nil nonempty
  have begins : digit.isDigit = true := isDigit_of_mem_whole (spelled ▸ List.mem_cons_self)
  have first : decimal.toText.head? = some digit := by
    rw [toText_eq, spelled]
    split <;> rfl
  intro char found
  obtain rfl := Option.some_inj.1 (first.symm.trans found)
  -- Neither white space nor a slash is a digit.
  constructor
  · -- White space is no digit.
    refine Bool.eq_false_iff.2 fun spacing => ?_
    rw [not_isDigit_of_isSpacing spacing] at begins
    cases begins
  · -- A slash is no digit.
    rintro ⟨rfl, _⟩
    cases begins

/-- A decimal is read back from its spelling, with all of its places. -/
theorem ofText_toText (decimal : Decimal) : ofText decimal.toText = decimal := by
  have all : ∀ char ∈ decimal.whole, char.isDigit = true := fun _ => isDigit_of_mem_whole
  rw [toText_eq]
  split
  next none =>
    -- The run of digits goes on to the end.
    have ends : EndsRun Char.isDigit [] := nofun
    have run := takeWhile_run all ends
    have rest := dropWhile_run all ends
    rw [List.append_nil] at run rest
    simp only [ofText, run, rest, List.drop_nil, List.append_nil, List.length_nil,
      ofDigitChars_whole, none, Nat.pow_zero, Nat.div_one]
    rw [← none]
  next some =>
    -- The point ends the digits in front of it.
    have point : EndsRun Char.isDigit ('.' :: decimal.fraction) := by
      rintro char first
      cases first
      rfl
    simp only [ofText, takeWhile_run all point, dropWhile_run all point, List.drop_one,
      List.tail_cons, length_fraction some]
    -- The whole part is moved to the left by the places.
    rw [Nat.ofDigitChars_append, Nat.ofDigitChars_eq_ofDigitChars_zero, ofDigitChars_fraction,
      length_fraction some, ofDigitChars_whole, Nat.div_add_mod]

end Decimal

end ByteCalc
