import ByteCalc.Machine
import ByteCalc.Proofs.Compile.Equations

/-! The value of an expression, or the first division by zero on the way to it. -/

namespace ByteCalc

/-- The result of an operator that stands on a line, where no zero of either sign divides. -/
def BinaryOp.evalAt (op : BinaryOp) (line : UInt32) (left right : Value) : Outcome :=
  if op = .divide ∧ (right = ⟨0⟩ ∨ right = ⟨0x8000000000000000⟩) then
    .error ⟨.divisionByZero, some line⟩
  else .ok (op.apply left right)

/-- The value of an expression: that of the left operand first, and the operator after both. -/
def Expression.eval : Expression → Outcome
  | number literal => .ok (.ofLiteral literal.lexeme)
  | group inside => inside.eval
  | negate _ operand => operand.eval.bind fun value => .ok value.negate
  | binary op operator left right =>
    left.eval.bind fun leftValue => right.eval.bind fun rightValue =>
      op.evalAt operator.line leftValue rightValue

/-- The words without any bit below the sign are those of the two zeros. -/
theorem Value.isZero_iff {value : Value} :
    value.isZero = true ↔ value = ⟨0⟩ ∨ value = ⟨0x8000000000000000⟩ := by
  obtain ⟨bits⟩ := value
  -- The three constants are taken to numbers, where the arithmetic can compare them.
  have mask : (0x7FFFFFFFFFFFFFFF : UInt64).toNat = 2 ^ 63 - 1 := rfl
  have high : (0x8000000000000000 : UInt64).toNat = 2 ^ 63 := rfl
  have zero : (0 : UInt64).toNat = 0 := rfl
  have bounded := bits.toNat_lt
  -- Without the sign, a word is its remainder below the sign bit.
  simp only [isZero, magnitude, UInt64.toNat_and, mask, Nat.and_two_pow_sub_one_eq_mod,
    decide_eq_true_eq, Value.mk.injEq, ← UInt64.toNat_inj, high, zero]
  omega

/-- Only a zero to divide by keeps an operator from a result. -/
theorem BinaryOp.evalAt_error {op : BinaryOp} {line : UInt32} {left right : Value}
    {error : RuntimeError} (failed : op.evalAt line left right = .error error) :
    error.fault = .divisionByZero := by
  -- The other branch has a value.
  unfold evalAt at failed
  split at failed <;> cases failed
  rfl

/-- An operator is applied to the values of its operands. -/
theorem Expression.eval_binary (op : BinaryOp) (operator : Token) {left right : Expression}
    {leftValue rightValue : Value} (leftEvaluated : left.eval = .ok leftValue)
    (rightEvaluated : right.eval = .ok rightValue) :
    (binary op operator left right).eval = op.evalAt operator.line leftValue rightValue := by
  -- Both operands succeed, so the sequence comes to the operator.
  rw [eval, leftEvaluated, rightEvaluated]
  rfl

/-- Only a division by zero keeps an expression from a value. -/
theorem Expression.eval_error {tree : Expression} {error : RuntimeError}
    (failed : tree.eval = .error error) : error.fault = .divisionByZero := by
  -- The error is that of the first operator to fail.
  induction tree with
  | number => cases failed
  | group inside ih => exact ih failed
  | negate sign operand ih =>
    rcases bind_eq_error_iff.1 failed with inner | ⟨value, _, impossible⟩
    · -- The operand has failed already.
      exact ih inner
    · -- A value can always be negated.
      cases impossible
  | binary op operator left right leftIh rightIh =>
    rcases bind_eq_error_iff.1 failed with onLeft | ⟨leftValue, _, failed⟩
    · -- The right operand is not evaluated any more.
      exact leftIh onLeft
    rcases bind_eq_error_iff.1 failed with onRight | ⟨rightValue, _, failed⟩
    · exact rightIh onRight
    · exact BinaryOp.evalAt_error failed

end ByteCalc
