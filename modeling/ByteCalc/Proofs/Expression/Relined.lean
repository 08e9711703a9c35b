import ByteCalc.Proofs.Expression.Code
import ByteCalc.Proofs.Expression.Evaluation

/-! Expressions whose tokens stand on other lines, and the code that is written for them. -/

namespace ByteCalc

/-- A token on another line. -/
def Token.atLine (token : Token) (line : UInt32) : Token :=
  { token with line := line }

/-- Some tokens on the lines that are given for their places, which are counted from a first one. -/
def reline (lines : Nat → UInt32) (place : Nat) : List Token → List Token
  | [] => []
  | token :: rest => token.atLine (lines place) :: reline lines (place + 1) rest

/-- An instruction, with the place of the token that it is written for. -/
structure Owned where
  /-- What is executed. -/
  instruction : Instruction
  /-- The place of the token in the text. -/
  place : Nat
deriving DecidableEq, Repr

/-- The instruction on the line that is given for its token. -/
def Owned.placed (lines : Nat → UInt32) (owned : Owned) : Placed :=
  ⟨owned.instruction, lines owned.place⟩

namespace Expression

/-- The number of tokens that spell an expression. -/
def tokenCount : Expression → Nat
  | number _ => 1
  | group inside => inside.tokenCount + 2
  | negate _ operand => operand.tokenCount + 1
  | binary _ _ left right => left.tokenCount + 1 + right.tokenCount

/-- The expression of the same tokens on other lines, given the place of the first token. -/
def reline (lines : Nat → UInt32) (place : Nat) : Expression → Expression
  | number literal => .number (literal.atLine (lines place))
  | group inside => .group (inside.reline lines (place + 1))
  | negate sign operand =>
    .negate (sign.atLine (lines place)) (operand.reline lines (place + 1))
  | binary op operator left right =>
    .binary op (operator.atLine (lines (place + left.tokenCount))) (left.reline lines place)
      (right.reline lines (place + left.tokenCount + 1))

/--
The code of an expression with the place of the token that each instruction is written for.

It is in postorder, like the code itself, and starts at a pool index and at the place of a token.
-/
def owned (first place : Nat) : Expression → List Owned
  | number _ => [⟨.load first, place⟩]
  | group inside => inside.owned first (place + 1)
  | negate _ operand => operand.owned first (place + 1) ++ [⟨.negate, place⟩]
  | binary op _ left right =>
    left.owned first place ++
      right.owned (first + left.literals.length) (place + left.tokenCount + 1) ++
      [⟨.binary op, place + left.tokenCount⟩]

end Expression

section Tokens

variable {lines : Nat → UInt32} {place : Nat}

/-- Moving tokens to other lines drops none of them. -/
@[simp] theorem length_reline (lines : Nat → UInt32) (place : Nat) (tokens : List Token) :
    (reline lines place tokens).length = tokens.length := by
  -- One token stays for each.
  induction tokens generalizing place with
  | nil => rfl
  | cons token rest ih => simp only [reline, List.length_cons, ih]

/-- The second part of a list is counted on from the length of the first. -/
theorem reline_append (lines : Nat → UInt32) (place : Nat) (before after : List Token) :
    reline lines place (before ++ after) =
      reline lines place before ++ reline lines (place + before.length) after := by
  -- The places go on to be counted behind the first part.
  induction before generalizing place with
  | nil => rfl
  | cons token rest ih =>
    simp only [List.cons_append, reline, ih, List.length_cons]
    rw [Nat.add_right_comm place, Nat.add_assoc]

/-- A phrase has as many tokens as its expression. -/
theorem Phrase.length_eq {level : Level} {tokens : List Token} {tree : Expression}
    (spelled : Phrase level tokens tree) : tokens.length = tree.tokenCount := by
  -- Each node counts its own tokens, which for a group are the two parentheses.
  induction spelled with
  | number => rfl
  | group opens spelled closes ih => simp [Expression.tokenCount, ih]
  | negate kind spelled ih => simp [Expression.tokenCount, ih]
  | factor spelled ih | term spelled ih => exact ih
  | chain spells same leftSpelled rightSpelled leftIh rightIh =>
    simp only [List.length_append, List.length_cons, Expression.tokenCount, leftIh, rightIh]
    omega

/-- A phrase is one on all lines. -/
theorem Phrase.reline {level : Level} {tokens : List Token} {tree : Expression}
    (spelled : Phrase level tokens tree) (lines : Nat → UInt32) (place : Nat) :
    Phrase level (reline lines place tokens) (tree.reline lines place) := by
  -- The rules of the grammar look at kinds, and never at lines.
  induction spelled generalizing place with
  | number kind => exact .number kind
  | group opens spelled closes ih =>
    -- The closing parenthesis keeps its kind, whichever place it has.
    rw [ByteCalc.reline, reline_append]
    exact .group opens (ih (place + 1)) closes
  | negate kind spelled ih => exact .negate kind (ih (place + 1))
  | factor spelled ih => exact .factor (ih place)
  | term spelled ih => exact .term (ih place)
  | chain spells same leftSpelled rightSpelled leftIh rightIh =>
    -- The operator stands behind as many tokens as the left phrase has.
    rw [reline_append, leftSpelled.length_eq]
    exact .chain spells same (leftIh place) (rightIh _)

end Tokens

namespace Expression

variable (lines : Nat → UInt32)

/-- Lines have no part in the nesting. -/
@[simp] theorem nesting_reline (place : Nat) (tree : Expression) :
    (tree.reline lines place).nesting = tree.nesting := by
  -- The levels come from the shape of the tree.
  induction tree generalizing place with
  | number => rfl
  | group inside ih | negate sign inside ih => simp only [reline, nesting, ih]
  | binary op operator left right leftIh rightIh => simp only [reline, nesting, leftIh, rightIh]

/-- The literals are written alike on all lines. -/
theorem literals_reline (place : Nat) (tree : Expression) :
    (tree.reline lines place).literals.map (·.lexeme) = tree.literals.map (·.lexeme) := by
  -- Only the lines of the literals may change.
  induction tree generalizing place with
  | number => rfl
  -- A grouping and a sign have no literals of their own.
  | group inside ih | negate sign inside ih => exact ih (place + 1)
  | binary op operator left right leftIh rightIh =>
    simp only [reline, literals, List.map_append, leftIh, rightIh]

/-- As many constants are needed on all lines. -/
@[simp] theorem length_literals_reline (place : Nat) (tree : Expression) :
    (tree.reline lines place).literals.length = tree.literals.length := by
  -- Lists with the same lexemes have the same length.
  simpa using congrArg List.length (tree.literals_reline lines place)

/-- The constants do not depend on lines. -/
theorem values_reline (place : Nat) (tree : Expression) :
    (tree.reline lines place).values = tree.values := by
  -- A value is made from nothing but the lexeme.
  have values (tree : Expression) :
      tree.values = (tree.literals.map (·.lexeme)).map .ofLiteral := by
    rw [List.map_map]
    rfl
  rw [values, values, literals_reline]

/-- The code consists of the same instructions, on the lines of the tokens they belong to. -/
theorem code_reline (first place : Nat) (tree : Expression) :
    (tree.reline lines place).code first = (tree.owned first place).map (Owned.placed lines) := by
  -- Every instruction takes its line from the token that owns it.
  induction tree generalizing first place with
  | number => rfl
  | group inside ih => exact ih first (place + 1)
  | negate sign operand ih =>
    -- The sign comes first in the text and last in the code, on its own line in both.
    rw [reline, code, ih, owned, List.map_append]
    rfl
  | binary op operator left right leftIh rightIh =>
    -- The right operand starts at the same pool index, since the left one has as many literals.
    rw [reline, code, leftIh, length_literals_reline, rightIh, owned, List.map_append,
      List.map_append]
    rfl

/-- Every instruction belongs to a token of the expression. -/
theorem place_of_mem_owned {first place : Nat} {tree : Expression} {item : Owned}
    (mem : item ∈ tree.owned first place) : item.place < place + tree.tokenCount := by
  -- The operands start where the tokens in front of them end.
  induction tree generalizing first place with
  | number =>
    obtain rfl := List.mem_singleton.1 mem
    exact Nat.lt_succ_self place
  | group inside ih =>
    have inner := ih mem
    simp only [tokenCount]
    omega
  | negate sign operand ih =>
    simp only [tokenCount]
    rcases List.mem_append.1 mem with inner | last
    · have inner := ih inner
      -- The operand ends where the whole ends, one place behind the sign.
      omega
    · -- The sign is the first token of all.
      obtain rfl := List.mem_singleton.1 last
      simp only
      omega
  | binary op operator left right leftIh rightIh =>
    simp only [tokenCount]
    rcases List.mem_append.1 mem with operands | last
    · rcases List.mem_append.1 operands with onLeft | onRight
      · -- The left operand ends in front of the operator.
        have inner := leftIh onLeft
        omega
      · -- The right one starts behind it, and ends the whole.
        have inner := rightIh onRight
        omega
    · obtain rfl := List.mem_singleton.1 last
      simp only
      omega

section Evaluation

/-- A sequence has a value if both of its steps do. -/
private theorem toOption_bind {ε α β : Type} (first : Except ε α) (next : α → Except ε β) :
    (first.bind next).toOption = first.toOption.bind fun value => (next value).toOption := by
  -- A first step that fails is the result, and without its error it is none.
  cases first <;> rfl

/-- The line of an operator tells only where it fails. -/
private theorem toOption_evalAt (op : BinaryOp) (line other : UInt32) (left right : Value) :
    (op.evalAt line left right).toOption = (op.evalAt other left right).toOption := by
  -- Whether there is a value is asked before the line is looked at.
  unfold BinaryOp.evalAt
  -- One branch has no value on either line, and the other has the same value.
  split <;> rfl

/-- An expression has the same value on all lines. -/
theorem eval_reline (place : Nat) (tree : Expression) :
    (tree.reline lines place).eval.toOption = tree.eval.toOption := by
  -- Lines show up in errors alone, which are dropped here.
  induction tree generalizing place with
  | number => rfl
  | group inside ih => exact ih (place + 1)
  | negate sign operand ih => simp only [reline, eval, toOption_bind, ih]
  | binary op operator left right leftIh rightIh =>
    simp only [reline, eval, toOption_bind, leftIh, rightIh]
    -- The operator may be moved too, once both operands have values.
    simp only [toOption_evalAt op _ operator.line]

end Evaluation

end Expression

end ByteCalc
