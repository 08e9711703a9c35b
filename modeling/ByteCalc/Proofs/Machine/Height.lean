import ByteCalc.Proofs.Expression.Slots
import ByteCalc.Proofs.Interpretation
import ByteCalc.Proofs.Machine.Decoding

/-! The height of the stack while compiled code runs, which the limit on nesting bounds. -/

namespace ByteCalc

namespace Machine

section Bounds

variable {machine next last : Machine} {outcome : Outcome} {bound : Nat}

/-- Whatever an operation takes off the stack, it puts nothing back when it stops. -/
theorem height_of_operate_stopped {opcode : Opcode}
    (stepped : machine.operate opcode = .stopped outcome last) :
    last.stack.length ≤ machine.stack.length := by
  -- An operation takes values off before it can stop, and pushes none.
  simp only [operate] at stepped
  split at stepped
  -- A binary operator that stops has divided by zero, and has used up both operands.
  next stack =>
    split at stepped <;> cases stepped
    rw [stack, List.length_cons, List.length_cons]
    exact Nat.le_add_right _ 2
  -- An operator or a negation that has its operands goes on.
  next => cases stepped
  -- A return takes its value away.
  next stack =>
    cases stepped
    rw [stack]
    exact Nat.le_succ _
  -- With too few operands, nothing at all is left.
  next =>
    cases stepped
    exact Nat.zero_le _

/-- An instruction that stops the machine leaves no more values than there were. -/
theorem height_of_stopped (stepped : machine.step = .stopped outcome last) :
    last.stack.length ≤ machine.stack.length := by
  -- Apart from operations, nothing that stops touches the stack.
  rw [step_eq_execute] at stepped
  generalize machine.chunk.entry machine.cursor = entry at stepped
  cases entry with
  | endOfCode | unknown | truncated =>
    cases stepped
    exact Nat.le_refl _
  | plain opcode => exact height_of_operate_stopped stepped
  | load opcode index constant =>
    -- A load that stops has no constant to push.
    simp only [execute, load] at stepped
    split at stepped <;> cases stepped
    exact Nat.le_refl _

/-- The stack has no more values than a bound in all states that the machine comes to. -/
def StaysWithin (machine : Machine) (bound : Nat) : Prop :=
  ∀ later, machine.Reaches later → later.stack.length ≤ bound

namespace StaysWithin

/-- A step that goes on is covered by what holds behind it. -/
theorem running (stepped : machine.step = .running next) (low : machine.stack.length ≤ bound)
    (onward : next.StaysWithin bound) : machine.StaysWithin bound := by
  -- What is reached is the state itself, or is reached from the next one.
  intro later reached
  rcases Relation.ReflTransGen.cases_head reached with rfl | ⟨second, first, rest⟩
  · exact low
  · cases stepped.symm.trans first
    exact onward later rest

/-- A state that stops covers all of its run. -/
theorem stopped (stepped : machine.step = .stopped outcome last)
    (low : machine.stack.length ≤ bound) : machine.StaysWithin bound := by
  -- There is no state behind the one that stops.
  intro later reached
  rcases Relation.ReflTransGen.cases_head reached with rfl | ⟨second, first, _⟩
  · exact low
  · cases stepped.symm.trans first

/-- No instruction that is executed on the way leaves more values either. -/
theorem step (within : machine.StaysWithin bound) {later : Machine}
    (reached : machine.Reaches later) : later.step.later.stack.length ≤ bound := by
  -- A state that the machine goes on to is reached, and a state that it stops in is no higher.
  cases stepped : later.step with
  | running next => exact within next (reached.trans (.step stepped))
  | stopped outcome last => exact Nat.le_trans (height_of_stopped stepped) (within later reached)

end StaysWithin

end Bounds

section Code

variable {chunk : Chunk} {offset : Nat} {stack : List Value} {value : Value} {bound : Nat}

/--
The code of an expression stays within its slots on any stack.

If the expression has a value, the machine goes on behind the code, where it has to stay within
the bound as well.
-/
theorem staysWithin_code {tree : Expression} {first : Nat}
    (held : chunk.HoldsExpression offset first tree) (room : stack.length + tree.slots ≤ bound)
    (behind : ∀ value, tree.eval = .ok value →
      StaysWithin ⟨chunk, offset + tree.width first, value :: stack⟩ bound) :
    StaysWithin ⟨chunk, offset, stack⟩ bound := by
  -- What stands behind the code of an operand is the code of the rest of the expression.
  induction tree generalizing offset first stack with
  | number literal =>
    -- A literal fills one slot, which the bound has room for.
    have below : stack.length ≤ bound := Nat.le_trans (Nat.le_add_right _ _) room
    exact .running (step_literal held) below (behind _ rfl)
  -- Parentheses leave no code.
  | group inside ih => exact ih ⟨held.code, held.pool, held.fits⟩ room behind
  | negate sign operand ih =>
    -- Behind the operand comes the negation, which needs a slot no more.
    refine ih held.negate_operand room fun inner evaluated => ?_
    have height : (inner :: stack).length ≤ bound :=
      Nat.le_trans (Nat.add_le_add_left operand.slots_pos _) room
    refine .running (step_negate held.code.right rfl) height ?_
    have whole := behind inner.negate (by rw [Expression.eval, evaluated]; rfl)
    rwa [Expression.width_negate, ← Nat.add_assoc] at whole
  | binary op operator left right leftIh rightIh =>
    -- The slots of both operands are within the bound, the right ones on top of the left value.
    have slots := right.slots_pos
    simp only [Expression.slots] at room
    refine leftIh held.binary_left (by omega) fun leftValue onLeft => ?_
    -- The left value is one of those below the right operand.
    refine rightIh held.binary_right ?_ fun rightValue onRight => ?_
    · rw [List.length_cons]
      omega
    -- Both values are on the stack when the operator comes.
    have height : (rightValue :: leftValue :: stack).length ≤ bound := by
      rw [List.length_cons, List.length_cons]
      omega
    -- Whether the operator has a result decides if the code goes on.
    have whole := Expression.eval_binary op operator onLeft onRight
    cases evaluated : op.evalAt operator.line leftValue rightValue with
    | ok value =>
      refine .running (step_binary_ok held.binary_operator evaluated) height ?_
      have onward := behind value (whole.trans evaluated)
      rwa [Expression.width_binary, ← Nat.add_assoc, ← Nat.add_assoc] at onward
    | error error =>
      obtain ⟨last, stepped⟩ := step_binary_error held.binary_operator evaluated
      -- A division by zero ends the run where two values were on the stack.
      exact .stopped stepped height

/-- All slots of an expression with a value are filled at some point of its code. -/
theorem exists_peak {tree : Expression} {first : Nat}
    (held : chunk.HoldsExpression offset first tree) (evaluated : tree.eval = .ok value) :
    ∃ peak, Reaches ⟨chunk, offset, stack⟩ peak ∧
      peak.stack.length = stack.length + tree.slots := by
  induction tree generalizing offset first stack value with
  -- A literal is on the stack behind its load.
  | number literal => exact ⟨_, .step (step_literal held), rfl⟩
  | group inside ih => exact ih ⟨held.code, held.pool, held.fits⟩ evaluated
  -- The sign comes behind the code of its operand, which has the peak.
  | negate sign operand ih =>
    obtain ⟨inner, innerEvaluated, _⟩ := bind_eq_ok_iff.1 evaluated
    exact ih held.negate_operand innerEvaluated
  | binary op operator left right leftIh rightIh =>
    -- Both operands have values, so both are run to the end.
    obtain ⟨leftValue, leftEvaluated, evaluated⟩ := bind_eq_ok_iff.1 evaluated
    obtain ⟨rightValue, rightEvaluated, _⟩ := bind_eq_ok_iff.1 evaluated
    -- The operand with the higher peak has that of the whole expression.
    rcases Nat.le_total (1 + right.slots) left.slots with onLeft | onRight
    · -- The left operand starts on the stack that was there.
      obtain ⟨peak, reached, height⟩ := leftIh held.binary_left leftEvaluated
      refine ⟨peak, reached, ?_⟩
      rw [height, Expression.slots, Nat.max_eq_left onLeft]
    · -- The right operand starts on top of the left value.
      obtain ⟨peak, reached, height⟩ := rightIh held.binary_right rightEvaluated
      refine ⟨peak, (reaches_code held.binary_left leftEvaluated).trans reached, ?_⟩
      rw [height, Expression.slots, Nat.max_eq_right onRight, List.length_cons, Nat.add_assoc]

end Code

/-- The chunk of an expression stays within the slots of the expression. -/
theorem staysWithin_chunk {tree : Expression} (endLine : UInt32)
    (fits : tree.literals.length ≤ maxConstants) :
    (start (tree.chunk endLine)).StaysWithin tree.slots := by
  -- The return behind the code takes the only value off the stack.
  -- The code is held as a whole, with the return behind it.
  obtain ⟨held, returns⟩ := tree.chunk_holds endLine fits
  refine staysWithin_code held (Nat.le_of_eq (Nat.zero_add _)) fun value evaluated => ?_
  rw [Nat.zero_add]
  exact .stopped (step_ret returns rfl) tree.slots_pos

end Machine

end ByteCalc
