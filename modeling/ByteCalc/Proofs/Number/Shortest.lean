import Mathlib.Algebra.Group.Nat.Defs
import ByteCalc.Number.Shortest

/-! Rounding keeps magnitudes as they are, and the shortest decimal reads back as its word. -/

namespace ByteCalc

namespace Binary64

variable {word : Nat}

/-- A word below the first exponent is its own magnitude. -/
theorem units_of_lt (low : word < 2 ^ 52) : units word = word :=
  if_pos (Nat.div_eq_of_lt low)

/-- Above that, each exponent doubles the magnitude of the bits with the hidden one. -/
theorem units_shifted {bits : Nat} (low : bits < 2 ^ 52) (exponent : Nat) :
    units ((exponent + 1) * 2 ^ 52 + bits) = (2 ^ 52 + bits) * 2 ^ exponent := by
  -- Here the power is written in another way than in the definition.
  have pow : Nat.pow 2 52 = 2 ^ 52 := rfl
  have quotient : ((exponent + 1) * 2 ^ 52 + bits) / 2 ^ 52 = exponent + 1 := by omega
  have rest : ((exponent + 1) * 2 ^ 52 + bits) % 2 ^ 52 = bits := by omega
  simp only [units, pow, quotient, rest]
  rfl

/-- A word counts the places above the lowest 53 bits of its magnitude, and then these bits. -/
theorem exists_bits (word : Nat) :
    ∃ bits, let shift := (units word).log2 - 52
      units word = bits * 2 ^ shift ∧ shift * 2 ^ 52 + bits = word := by
  by_cases low : word < 2 ^ 52
  · -- Below the first exponent, the magnitude has no more than 52 bits.
    have shift : word.log2 - 52 = 0 := by
      by_cases zero : word = 0
      · rw [zero]
        rfl
      · exact Nat.sub_eq_zero_of_le (Nat.le_of_lt ((Nat.log2_lt zero).2 low))
    rw [units_of_lt low]
    exact ⟨word, by simp [shift], by simp [shift]⟩
  -- From the first exponent on, the word is split into its exponent and the bits below it.
  · obtain ⟨exponent, bits, fits, rfl⟩ : ∃ exponent bits, bits < 2 ^ 52 ∧
        word = (exponent + 1) * 2 ^ 52 + bits :=
      ⟨word / 2 ^ 52 - 1, word % 2 ^ 52, Nat.mod_lt _ (Nat.two_pow_pos 52), by omega⟩
    have positive := Nat.two_pow_pos exponent
    have log : ((2 ^ 52 + bits) * 2 ^ exponent).log2 = 52 + exponent := by
      refine (Nat.log2_eq_iff (Nat.ne_of_gt (Nat.mul_pos (by omega) positive))).2 ⟨?_, ?_⟩
      · rw [Nat.pow_add]
        exact Nat.mul_le_mul_right _ (Nat.le_add_right _ _)
      · rw [Nat.add_right_comm, Nat.pow_add]
        exact Nat.mul_lt_mul_of_pos_right (by omega) positive
    rw [units_shifted fits, log, Nat.add_sub_cancel_left]
    exact ⟨2 ^ 52 + bits, rfl, by omega⟩

/-- A whole quotient is not rounded. -/
theorem divideEven_mul (quotient : Nat) {denominator : Nat} (positive : 0 < denominator) :
    divideEven (quotient * denominator) denominator = quotient := by
  -- Nothing is left of the division, and nothing is less than half.
  rw [divideEven, Nat.mul_div_cancel _ positive, Nat.mul_mod_left]
  exact if_pos (.inl positive)

/-- A fraction that is a finite magnitude is rounded to the word of that. -/
theorem nearest_of_units {numerator denominator : Nat} (finite : word < infinity)
    (positive : 0 < denominator)
    (same : numerator * Nat.pow 2 1074 = units word * denominator) :
    nearest numerator denominator = word := by
  obtain ⟨bits, shifted, spelled⟩ := exists_bits word
  -- The magnitude is what its bits are shifted to.
  have place := Nat.mul_pos positive (Nat.two_pow_pos ((units word).log2 - 52))
  have scaled : units word * denominator =
      bits * (denominator * 2 ^ ((units word).log2 - 52)) := by
    rw [Nat.mul_comm denominator, ← Nat.mul_assoc, ← shifted]
  have rounded := divideEven_mul bits place
  rw [← scaled] at rounded
  have quotient : units word * denominator / denominator = units word :=
    Nat.mul_div_cancel _ positive
  unfold nearest
  simp only
  -- The fraction in units is the magnitude, so that no bit is lost when it is divided.
  rw [same, quotient, Nat.pow_eq, Nat.pow_eq, rounded, spelled]
  exact Nat.min_eq_right (Nat.le_of_lt finite)

end Binary64

namespace Shortest

section Walk

-- No step of the walk computes a candidate.
attribute [local irreducible] onGrid?

/-- The walk goes on to the next grid where a grid has no candidate. -/
theorem fromGrid_succ (word grid : Nat) :
    fromGrid word (grid + 1) =
      match onGrid? word (grid + 1) with
      | some found => found
      | none => fromGrid word grid :=
  rfl

end Walk

variable {word : Nat}

/-- Whatever is found on a grid reads back. -/
theorem toWord_of_onGrid? {grid : Nat} {decimal : Decimal}
    (found : onGrid? word grid = some decimal) : decimal.toWord = word := by
  -- A candidate that does not is passed over.
  unfold onGrid? at found
  simpa using List.find?_some found

/-- A point of a grid is read as a fraction whose denominator is the step of the grid. -/
theorem toWord_point (count grid : Nat) :
    (point count grid).toWord =
      Binary64.nearest (count * Nat.pow 10 (grid - 1074)) (Nat.pow 10 (1074 - grid)) :=
  rfl

/-- On the finest grid, every magnitude is a point. -/
theorem toWord_fromGrid_zero (finite : word < Binary64.infinity) :
    (fromGrid word 0).toWord = word := by
  have first : fromGrid word 0 = point (Binary64.units word * Nat.pow 5 1074) 0 := rfl
  have one : Nat.pow 10 0 = 1 := rfl
  have positive (count : Nat) : 0 < Nat.pow 10 count := Nat.pow_pos (by decide)
  rw [first, toWord_point, Nat.zero_sub, Nat.sub_zero, one, Nat.mul_one]
  refine Binary64.nearest_of_units finite (positive 1074) ?_
  -- Units are counted by powers of two, and ten is five times two, whatever the power.
  generalize 1074 = count
  rw [Nat.mul_assoc]
  exact congrArg (Binary64.units word * ·) (Nat.mul_pow 5 2 count).symm

/-- Wherever the walk ends, the decimal reads back. -/
theorem toWord_fromGrid (finite : word < Binary64.infinity) (grid : Nat) :
    (fromGrid word grid).toWord = word := by
  -- The walk ends on a grid with a candidate, or on the finest one.
  induction grid with
  | zero => exact toWord_fromGrid_zero finite
  | succ grid ih =>
    rw [fromGrid_succ]
    cases found : onGrid? word (grid + 1) with
    | none => exact ih
    | some decimal => exact toWord_of_onGrid? found

end Shortest

/-- The shortest decimal of a finite magnitude reads back as its word. -/
theorem Decimal.toWord_shortest {word : Nat} (finite : word < Binary64.infinity) :
    (Decimal.shortest word).toWord = word := by
  -- Zero is not looked for on any grid.
  unfold shortest
  split
  next zero =>
    subst zero
    refine Binary64.nearest_of_units finite Nat.one_pos ?_
    rw [Nat.zero_mul]
    rfl
  next => exact Shortest.toWord_fromGrid finite _

end ByteCalc
