import ByteCalc.Proofs.Expression.Evaluation
import ByteCalc.Proofs.Machine.Execution

/-! The code of an expression pushes its value, on any stack and wherever the code stands. -/

namespace ByteCalc

/-- The chunk holds the code of an expression at an offset, and its literals in the pool. -/
structure Chunk.HoldsExpression (chunk : Chunk) (offset first : Nat) (tree : Expression) :
    Prop where
  /-- The code stands at the offset. -/
  code : chunk.Holds offset (tree.code first)
  /-- The literals stand from their first index on. -/
  pool : tree.values <+: chunk.constants.toList.drop first
  /-- Every index into the pool has room in a load. -/
  fits : chunk.constants.size ≤ maxConstants

/-- The number of bytes that the code of an expression takes. -/
def Expression.width (tree : Expression) (first : Nat) : Nat :=
  (Placed.bytes (tree.code first)).length

namespace Expression

theorem width_negate (sign : Token) (operand : Expression) (first : Nat) :
    (negate sign operand).width first = operand.width first + 1 := by
  -- The negation is one byte behind its operand.
  simp only [width, code, Placed.bytes_append, List.length_append]
  rfl

/-- An operator is one byte behind the code of both its operands. -/
theorem width_binary (op : BinaryOp) (operator : Token) (left right : Expression) (first : Nat) :
    (binary op operator left right).width first =
      left.width first + right.width (first + left.literals.length) + 1 := by
  -- The code of the right operand starts with another index.
  simp only [width, code, Placed.bytes_append, List.length_append]
  rfl

end Expression

namespace Chunk.HoldsExpression

variable {chunk : Chunk} {offset first : Nat} {literal sign operator : Token} {op : BinaryOp}
  {operand left right : Expression}

/-- The constant of a literal is found at the index its load was written with. -/
theorem literal_at (held : chunk.HoldsExpression offset first (.number literal)) :
    chunk.constants[first]? = some (.ofLiteral literal.lexeme) := by
  -- The literal is the first value of what is left of the pool.
  obtain ⟨rest, whole⟩ := held.pool
  rw [← Array.getElem?_toList, ← Nat.add_zero first, ← List.getElem?_drop, ← whole]
  rfl

/-- The operand of a sign stands where the whole stands. -/
theorem negate_operand (held : chunk.HoldsExpression offset first (.negate sign operand)) :
    chunk.HoldsExpression offset first operand :=
  ⟨held.code.left, held.pool, held.fits⟩

/-- The left operand stands where the whole stands. -/
theorem binary_left (held : chunk.HoldsExpression offset first (.binary op operator left right)) :
    chunk.HoldsExpression offset first left where
  code := held.code.left.left
  pool := by
    have pool := held.pool
    simp only [Expression.values, Expression.literals, List.map_append] at pool
    exact (List.prefix_append _ _).trans pool
  fits := held.fits

/-- The right operand stands behind the left one, in the code and in the pool. -/
theorem binary_right (held : chunk.HoldsExpression offset first (.binary op operator left right)) :
    chunk.HoldsExpression (offset + left.width first) (first + left.literals.length) right where
  code := held.code.left.right
  pool := by
    -- The literals on the right stand behind those on the left.
    obtain ⟨rest, whole⟩ := held.pool
    simp only [Expression.values, Expression.literals, List.map_append] at whole
    refine ⟨rest, ?_⟩
    rw [← List.drop_drop, ← whole, List.append_assoc, ← List.length_map (fun literal =>
      Value.ofLiteral literal.lexeme), List.drop_left]
    rfl
  fits := held.fits

/-- The operator stands behind the code of both operands. -/
theorem binary_operator
    (held : chunk.HoldsExpression offset first (.binary op operator left right)) :
    chunk.Holds (offset + left.width first + right.width (first + left.literals.length))
      [⟨.binary op, operator.line⟩] := by
  have last := held.code.right
  rwa [Placed.bytes_append, List.length_append, ← Nat.add_assoc] at last

end Chunk.HoldsExpression

namespace Machine

variable {chunk : Chunk} {offset : Nat} {stack : List Value} {left right value : Value}
  {op : BinaryOp} {line : UInt32}

/-- An operator with a result replaces its operands by that. -/
theorem step_binary_ok (held : chunk.Holds offset [⟨.binary op, line⟩])
    (evaluated : op.evalAt line left right = .ok value) :
    step ⟨chunk, offset, right :: left :: stack⟩ = .running ⟨chunk, offset + 1, value :: stack⟩ := by
  -- The machine divides by no zero, and there is a value only where nothing does.
  have combined : step ⟨chunk, offset, right :: left :: stack⟩ =
      combine ⟨chunk, offset, right :: left :: stack⟩ op (offset + 1) := step_binary held
  rw [combined]
  unfold BinaryOp.evalAt at evaluated
  split at evaluated
  · -- A zero divisor has no value.
    cases evaluated
  next nonzero =>
    cases evaluated
    simp only [combine, Value.isZero_iff, if_neg nonzero]

/-- An operator without a result stops the machine with the fault and the line of the operator. -/
theorem step_binary_error {error : RuntimeError} (held : chunk.Holds offset [⟨.binary op, line⟩])
    (failed : op.evalAt line left right = .error error) :
    ∃ last, step ⟨chunk, offset, right :: left :: stack⟩ = .stopped (.error error) last := by
  -- The machine takes the line of the opcode byte, which is that of the operator.
  have combined : step ⟨chunk, offset, right :: left :: stack⟩ =
      combine ⟨chunk, offset, right :: left :: stack⟩ op (offset + 1) := step_binary held
  rw [combined]
  unfold BinaryOp.evalAt at failed
  split at failed
  next zero =>
    cases failed
    simp only [combine, Value.isZero_iff, if_pos zero, fail, held.line_at]
    exact ⟨_, rfl⟩
  · -- Every other divisor has a value.
    cases failed

/-- The code of a literal is one load, which pushes the value of the literal. -/
theorem step_literal {literal : Token} {first : Nat}
    (held : chunk.HoldsExpression offset first (.number literal)) :
    step ⟨chunk, offset, stack⟩ =
      .running ⟨chunk, offset + (Expression.number literal).width first,
        .ofLiteral literal.lexeme :: stack⟩ := by
  -- There is a constant at the index, so that its load cannot fail.
  have found := held.literal_at
  have inside := (Array.getElem?_eq_some_iff.1 found).1
  have stepped : step ⟨chunk, offset, stack⟩ =
      load ⟨chunk, offset, stack⟩ first (offset + (Instruction.load first).bytes.length) :=
    step_load held.code (Nat.lt_of_lt_of_le inside held.fits)
  -- The constant that is found is the one that is pushed.
  simp only [load, found] at stepped
  simp only [stepped, Expression.width, Expression.code, Placed.bytes, List.flatMap_singleton]

/-- The code of an expression with a value pushes the value, and nothing else is changed. -/
theorem reaches_code {tree : Expression} {first : Nat}
    (held : chunk.HoldsExpression offset first tree) (evaluated : tree.eval = .ok value) :
    Reaches ⟨chunk, offset, stack⟩ ⟨chunk, offset + tree.width first, value :: stack⟩ := by
  -- Each operand runs on the stack that the code before it has left.
  induction tree generalizing offset first stack value with
  | number literal =>
    cases evaluated
    exact .step (step_literal held)
  | group inside ih => exact ih ⟨held.code, held.pool, held.fits⟩ evaluated
  | negate sign operand ih =>
    -- The operand comes first, and then the sign that flips it.
    obtain ⟨inner, innerEvaluated, evaluated⟩ := bind_eq_ok_iff.1 evaluated
    cases evaluated
    have stepped : step ⟨chunk, offset + operand.width first, inner :: stack⟩ =
        .running ⟨chunk, offset + operand.width first + 1, inner.negate :: stack⟩ :=
      step_negate held.code.right rfl
    rw [Expression.width_negate, ← Nat.add_assoc]
    exact (ih held.negate_operand innerEvaluated).trans (.step stepped)
  | binary op operator left right leftIh rightIh =>
    -- The right operand runs with the left value below it.
    obtain ⟨leftValue, leftEvaluated, evaluated⟩ := bind_eq_ok_iff.1 evaluated
    obtain ⟨rightValue, rightEvaluated, evaluated⟩ := bind_eq_ok_iff.1 evaluated
    rw [Expression.width_binary, ← Nat.add_assoc, ← Nat.add_assoc]
    refine (leftIh held.binary_left leftEvaluated).trans ?_
    refine (rightIh held.binary_right rightEvaluated).trans ?_
    exact .step (step_binary_ok held.binary_operator evaluated)

/-- A run goes on behind the code of an expression with a value. -/
theorem run_code {tree : Expression} {first : Nat}
    (held : chunk.HoldsExpression offset first tree) (evaluated : tree.eval = .ok value) :
    run ⟨chunk, offset, stack⟩ = run ⟨chunk, offset + tree.width first, value :: stack⟩ :=
  (reaches_code held evaluated).run_eq

/-- The code of an expression without a value stops the machine for the same reason. -/
theorem run_code_error {tree : Expression} {first : Nat} {error : RuntimeError}
    (held : chunk.HoldsExpression offset first tree) (failed : tree.eval = .error error) :
    (run ⟨chunk, offset, stack⟩).1 = .error error := by
  -- What comes before the first failure has values, and has pushed them.
  induction tree generalizing offset first stack with
  | number literal => cases failed
  | group inside ih => exact ih ⟨held.code, held.pool, held.fits⟩ failed
  | negate sign operand ih =>
    rcases bind_eq_error_iff.1 failed with inner | ⟨value, _, impossible⟩
    · -- The operand has failed, and its code stops the machine.
      exact ih held.negate_operand inner
    · -- A negation cannot fail.
      cases impossible
  | binary op operator left right leftIh rightIh =>
    rcases bind_eq_error_iff.1 failed with onLeft | ⟨leftValue, leftEvaluated, failed⟩
    · -- The left operand has failed before anything else is run.
      exact leftIh held.binary_left onLeft
    rw [run_code held.binary_left leftEvaluated]
    rcases bind_eq_error_iff.1 failed with onRight | ⟨rightValue, rightEvaluated, failed⟩
    · -- The right operand has failed, with the left value on the stack.
      exact rightIh held.binary_right onRight
    rw [run_code held.binary_right rightEvaluated]
    -- Both have values, so that the operator is what fails.
    obtain ⟨last, stepped⟩ := step_binary_error held.binary_operator failed
    rw [run_stopped stepped]

end Machine

end ByteCalc
