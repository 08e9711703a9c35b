import ByteCalc.Proofs.Expression.Grammar

/-! The stack slots that an expression needs, against the levels that are open to read it. -/

namespace ByteCalc

namespace Expression

/-- The number of stack slots that the code of an expression fills at once. -/
def slots : Expression → Nat
  -- The left value stays on the stack while the right operand is computed.
  | number _ => 1
  | group inside => inside.slots
  | negate _ operand => operand.slots
  | binary _ _ left right => max left.slots (1 + right.slots)

/-- Every expression leaves a value, which takes a slot. -/
theorem slots_pos (tree : Expression) : 0 < tree.slots := by
  -- A literal needs a slot, and everything else has a literal in it.
  induction tree with
  | number => exact Nat.zero_lt_one
  | group _ ih | negate _ _ ih => exact ih
  | binary op operator left right leftIh rightIh =>
    exact Nat.lt_of_lt_of_le leftIh (Nat.le_max_left _ _)

end Expression

/-- How many thirds of a slot a phrase of a level may need beyond two thirds of its levels. -/
def Level.slack : Level → Nat
  | sum => 3
  | product => 2
  | unary => 1

/-- The right operand of a chain has a third of a slot less to spare. -/
theorem BinaryOp.slack_level (op : BinaryOp) : op.level.slack = op.rightLevel.slack + 1 := by
  -- The levels are listed from loose to tight, each with one third less.
  cases op <;> rfl

/-- Every three levels make room for two slots, apart from the slack of the loosest of them. -/
theorem Phrase.slots_le {level : Level} {tokens : List Token} {tree : Expression}
    (spelled : Phrase level tokens tree) :
    3 * tree.slots ≤ 2 * tree.nesting + level.slack := by
  induction spelled with
  -- A literal has three thirds in its slot, against two for its level and one to spare.
  | number kind => exact Nat.le_refl 3
  | group opens spelled closes ih =>
    -- The level of the parentheses pays for the slack of the sum inside.
    simp only [Expression.slots, Expression.nesting, Level.slack] at ih ⊢
    omega
  | negate kind spelled ih =>
    -- A sign takes a level, but no slot of its own.
    simp only [Expression.slots, Expression.nesting] at ih ⊢
    omega
  -- A looser level has a third more to spare.
  | factor spelled ih | term spelled ih => exact Nat.le_succ_of_le ih
  | @chain level operator op before after left right spells same leftSpelled rightSpelled leftIh
      rightIh =>
    -- The right operand takes one slot and one level more, and is a level tighter.
    subst same
    have slack := op.slack_level
    simp only [Expression.slots, Expression.nesting]
    omega

/-- A sentence within the limit of the levels needs no more slots than this. -/
theorem Phrase.slots_le_of_nesting {tokens : List Token} {tree : Expression}
    (spelled : Sentence tokens tree) (shallow : tree.nesting ≤ maxNesting) : tree.slots ≤ 171 := by
  -- Two thirds of the levels are 170 slots, and the slack of a sum is one more.
  have bound : 3 * tree.slots ≤ 2 * tree.nesting + 3 := spelled.slots_le
  have limit : tree.nesting ≤ 255 := shallow
  omega

end ByteCalc
