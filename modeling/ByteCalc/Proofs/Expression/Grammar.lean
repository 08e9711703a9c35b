import ByteCalc.Compile

/-! Expressions as trees, and the grammar that says which tokens spell which tree. -/

namespace ByteCalc

/-- An expression, whose nodes keep the tokens that their code is written for. -/
inductive Expression where
  /-- A number literal. -/
  | number (literal : Token)
  /-- An expression between parentheses. -/
  | group (inside : Expression)
  /-- The negation that a sign asks for. -/
  | negate (sign : Token) (operand : Expression)
  /-- An operator between its two operands. -/
  | binary (op : BinaryOp) (operator : Token) (left right : Expression)
deriving DecidableEq, Repr

namespace Expression

/-- The literals of an expression, in the order they are written. -/
def literals : Expression → List Token
  | number literal => [literal]
  | group inside => inside.literals
  | negate _ operand => operand.literals
  | binary _ _ left right => left.literals ++ right.literals

/-- The number of levels that have to be open at once to read an expression. -/
def nesting : Expression → Nat
  -- A left operand is read before its operator is seen, so it costs nothing on top.
  | number _ => 1
  | group inside => 1 + inside.nesting
  | negate _ operand => 1 + operand.nesting
  | binary _ _ left right => max left.nesting (1 + right.nesting)

/-- Every expression opens a level. -/
theorem nesting_pos (tree : Expression) : 0 < tree.nesting := by
  -- A literal needs one level, and every other node needs those of an operand.
  induction tree with
  | number => exact Nat.zero_lt_one
  | group | negate => simp only [nesting]; omega
  | binary op operator left right leftPos rightPos => simp only [nesting]; omega

end Expression

/--
The tokens that spell an expression at a level of the grammar.

A unary phrase is a literal, a grouping or a negation.
A product is a chain of unary phrases, and a sum is a chain of products.
-/
inductive Phrase : Level → List Token → Expression → Prop where
  /-- A literal stands for itself. -/
  | number {literal : Token} (kind : literal.kind = .number) :
      Phrase .unary [literal] (.number literal)
  /-- Parentheses hold a sum. -/
  | group {opening closing : Token} {tokens : List Token} {inside : Expression}
      (opens : opening.kind = .leftParen) (spelled : Phrase .sum tokens inside)
      (closes : closing.kind = .rightParen) :
      Phrase .unary (opening :: (tokens ++ [closing])) (.group inside)
  /-- A sign negates the unary phrase after it. -/
  | negate {sign : Token} {tokens : List Token} {operand : Expression}
      (kind : sign.kind = .minus) (spelled : Phrase .unary tokens operand) :
      Phrase .unary (sign :: tokens) (.negate sign operand)
  /-- A unary phrase is a product of one factor. -/
  | factor {tokens : List Token} {tree : Expression} (spelled : Phrase .unary tokens tree) :
      Phrase .product tokens tree
  /-- A product is a sum of one term. -/
  | term {tokens : List Token} {tree : Expression} (spelled : Phrase .product tokens tree) :
      Phrase .sum tokens tree
  /-- A chain goes on to the right, so that what it has read so far is the left operand. -/
  | chain {level : Level} {operator : Token} {op : BinaryOp} {before after : List Token}
      {left right : Expression} (spells : operator.kind.binaryOp? = some op)
      (same : op.level = level) (leftSpelled : Phrase level before left)
      (rightSpelled : Phrase op.rightLevel after right) :
      Phrase level (before ++ operator :: after) (.binary op operator left right)

/-- The tokens of a sentence, with the expression that they spell. -/
abbrev Sentence (tokens : List Token) (tree : Expression) : Prop :=
  Phrase .sum tokens tree

namespace Level

/-- A sum is the loosest phrase. -/
theorem sum_le (level : Level) : sum ≤ level := by
  cases level <;> decide

/-- A unary phrase is the tightest. -/
theorem le_unary (level : Level) : level ≤ unary := by
  cases level <;> decide

/-- A phrase can stand where its own level is asked for. -/
theorem le_refl (level : Level) : level ≤ level := by
  cases level <;> decide

/-- What is tighter than a tighter level is tighter. -/
theorem le_trans {loose middle tight : Level} (first : loose ≤ middle) (second : middle ≤ tight) :
    loose ≤ tight :=
  -- The order is that of the ranks.
  Nat.le_trans (m := middle.rank) first second

/-- Levels that are each as tight as the other are one level. -/
theorem le_antisymm {first second : Level} (there : first ≤ second) (back : second ≤ first) :
    first = second := by
  -- No two levels have the same rank.
  revert there back
  cases first <;> cases second <;> decide

/-- Of two levels, one is always the looser. -/
theorem le_of_not_le {loose tight : Level} (apart : ¬ tight ≤ loose) : loose ≤ tight := by
  -- The ranks are in a line, and so are the levels.
  revert apart
  cases loose <;> cases tight <;> decide

end Level

namespace BinaryOp

/-- No chain is as tight as a unary phrase. -/
theorem not_unary_le_level (op : BinaryOp) : ¬ Level.unary ≤ op.level := by
  cases op <;> decide

/-- The same as an equation, for a rule that says what the level of a chain is. -/
theorem level_ne_unary (op : BinaryOp) : op.level ≠ .unary := by
  cases op <;> decide

/-- The right operand of an operator is tighter than every chain that the operator may end. -/
theorem not_rightLevel_le {op : BinaryOp} {level : Level} (loose : level ≤ op.level) :
    ¬ op.rightLevel ≤ level := by
  -- The right operand is one level tighter than its operator.
  revert loose
  cases op <;> cases level <;> decide

/-- An operator too loose for the right operand of another is no tighter than that one. -/
theorem le_level_of_not_rightLevel_le (op : BinaryOp) {other : BinaryOp}
    (looser : ¬ op.rightLevel ≤ other.level) : other.level ≤ op.level := by
  -- There are sixteen pairs of operators.
  revert looser
  cases op <;> cases other <;> decide

/-- Every chain is a product at the tightest. -/
theorem level_le_product (op : BinaryOp) : op.level ≤ .product := by
  cases op <;> decide

/-- A tighter operator fits into the right operand of a looser one. -/
theorem rightLevel_le_level (op : BinaryOp) {other : BinaryOp}
    (tighter : ¬ other.level ≤ op.level) : op.rightLevel ≤ other.level := by
  -- The levels of the operators leave no room between an operator and its right operand.
  revert tighter
  cases op <;> cases other <;> decide

/-- The right operand is never looser than the chain it is part of. -/
theorem level_le_rightLevel (op : BinaryOp) : op.level ≤ op.rightLevel := by
  -- It is the next tighter level of each.
  cases op <;> decide

end BinaryOp

namespace Phrase

/-- A phrase can stand wherever a looser one can. -/
theorem loosen {tight loose : Level} {tokens : List Token} {tree : Expression}
    (spelled : Phrase tight tokens tree) (looser : loose ≤ tight) : Phrase loose tokens tree := by
  -- Each step from one level to the next has a rule of its own.
  cases tight <;> cases loose
  -- Looser phrases come after the tighter ones they are made of.
  case sum.sum | product.product | unary.unary => exact spelled
  case product.sum => exact .term spelled
  case unary.product => exact .factor spelled
  case unary.sum => exact .term (.factor spelled)
  all_goals exact absurd looser (by decide)

/-- A phrase has a first token. -/
theorem ne_nil {level : Level} {tokens : List Token} {tree : Expression}
    (spelled : Phrase level tokens tree) : tokens ≠ [] := by
  -- Every rule that adds tokens adds one of its own.
  induction spelled with
  | number | group | negate | chain => simp
  | factor _ ih | term _ ih => exact ih

/-- Less is left behind a phrase than in front of it. -/
theorem length_lt {level : Level} {tokens : List Token} {tree : Expression}
    (spelled : Phrase level tokens tree) (rest : List Token) :
    rest.length < (tokens ++ rest).length := by
  -- The tokens of the phrase are missing behind it.
  have := List.length_pos_iff.2 spelled.ne_nil
  simp only [List.length_append]
  omega

end Phrase

end ByteCalc
