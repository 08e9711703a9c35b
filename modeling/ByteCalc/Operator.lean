import ByteCalc.Value

/-! Binary operators and the levels at which an expression is read. -/

namespace ByteCalc

/-- A level of the expression grammar, from the loosest to the tightest. -/
inductive Level where
  /-- A chain of sums and differences. -/
  | sum
  /-- A chain of products and quotients. -/
  | product
  /-- A negation, a literal or a grouping. -/
  | unary
deriving DecidableEq, Repr

namespace Level

/-- The position of a level, counted from the loosest. -/
def rank : Level → Nat
  | sum => 0
  | product => 1
  | unary => 2

instance : LE Level := ⟨fun left right => left.rank ≤ right.rank⟩

instance (left right : Level) : Decidable (left ≤ right) :=
  inferInstanceAs (Decidable (left.rank ≤ right.rank))

end Level

/-- An operator between two operands. -/
inductive BinaryOp where
  | add
  | subtract
  | multiply
  | divide
deriving DecidableEq, Repr

namespace BinaryOp

/-- The level whose chains hold the operator. -/
def level : BinaryOp → Level
  | add | subtract => .sum
  | multiply | divide => .product

/-- The level of the right operand, one tighter than the chain it continues. -/
def rightLevel (op : BinaryOp) : Level :=
  match op.level with
  | .sum => .product
  | .product | .unary => .unary

/-- The rounded result on two values. -/
def apply : BinaryOp → Value → Value → Value
  | add => Value.add
  | subtract => Value.subtract
  | multiply => Value.multiply
  | divide => Value.divide

end BinaryOp

end ByteCalc
