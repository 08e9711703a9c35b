import ByteCalc.Number.Decimal

/-! The shortest decimal that reads back as a given binary64 magnitude. -/

namespace ByteCalc

namespace Shortest

/-- The multiple `count` of the grid step `10 ^ (grid - 1074)`. -/
def point (count grid : Nat) : Decimal :=
  ⟨count * Nat.pow 10 (grid - 1074), 1074 - grid⟩

/-- The nearer neighbour of a magnitude on one grid, among those that read back as its word. -/
def onGrid? (word grid : Nat) : Option Decimal :=
  -- Scaled by the places of the grid, the lower neighbour is a quotient and its gap a remainder.
  let value := Binary64.units word * Nat.pow 10 (1074 - grid)
  let step := Nat.pow 2 1074 * Nat.pow 10 (grid - 1074)
  let lower := point (value / step) grid
  let upper := point (value / step + 1) grid
  -- Halfway between the two, the upper neighbour is preferred.
  let candidates := if 2 * (value % step) < step then [lower, upper] else [upper, lower]
  candidates.find? fun candidate => candidate.toWord = word

/-- The decimal found on the coarsest grid that holds one, starting from the given grid. -/
def fromGrid (word : Nat) : Nat → Decimal
  -- The finest grid holds every finite magnitude exactly.
  | 0 => point (Binary64.units word * Nat.pow 5 1074) 0
  | grid + 1 =>
    match onGrid? word (grid + 1) with
    | some found => found
    | none => fromGrid word grid

/-- A grid whose step exceeds the magnitude, as ten to the `0.30103` is a little above two. -/
def startGrid (word : Nat) : Nat :=
  752 + (Binary64.units word).log2 * 30103 / 100000

end Shortest

/-- The decimal with the fewest digits that reads back as a finite word, the nearest of those. -/
def Decimal.shortest (word : Nat) : Decimal :=
  -- Zero has no leading digit to start from.
  if word = 0 then ⟨0, 0⟩ else Shortest.fromGrid word (Shortest.startGrid word)

/-- One tenth is written with one digit, although it is not a binary fraction. -/
example : Decimal.shortest 0x3FB999999999999A = ⟨1, 1⟩ := by decide +kernel

/-- The smallest positive value keeps one digit, as other single digits read back too. -/
example : Decimal.shortest 1 = ⟨5, 324⟩ := by decide +kernel

/-- A value halfway between its neighbours with sixteen digits takes the upper one. -/
example : Decimal.shortest 0x4301531C396061F6 = ⟨6095569113610868, 1⟩ := by decide +kernel

end ByteCalc
