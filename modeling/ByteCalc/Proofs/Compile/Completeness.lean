import ByteCalc.Proofs.Compile.Equations

/-! Phrases of the grammar are compiled to their code, unless they nest too deeply. -/

namespace ByteCalc

namespace Compile

/-- Before the end of a text without faults, there always is a next line. -/
theorem nextLine_ok (endLine : UInt32) (tokens : List Token) :
    ∃ line, nextLine (.ok endLine) tokens = .ok line := by
  -- A token has a line, and behind the last one there is that of the end.
  cases tokens with
  | nil => exact ⟨endLine, rfl⟩
  | cons token rest => exact ⟨token.line, rfl⟩

/-- A part without any room is refused, whatever it begins with. -/
private theorem partWithin_no_room (endLine : UInt32) (level : Level) (tokens : List Token)
    (chunk : Chunk) :
    ∃ line, partWithin (.ok endLine) 0 level tokens chunk = .error ⟨.tooDeep, line⟩ := by
  -- Whatever the next line is, it has been looked up without a fault.
  obtain ⟨line, looked⟩ := nextLine_ok endLine tokens
  exact ⟨line, by rw [partWithin_zero, looked]; rfl⟩

/-- Where there is room for a level around an expression, there is room for a level inside. -/
private theorem exists_room (tree : Expression) {room : Nat}
    (shallow : 1 + tree.nesting ≤ room + 1) : ∃ inner, room = inner + 1 :=
  -- The expression needs one level at least.
  Nat.exists_eq_add_one.2 (by have := tree.nesting_pos; omega)

/--
A phrase that nests no deeper than the room allows is compiled to its code.

What is left to do is the chain of the level that was asked for, right behind the phrase.
-/
theorem partWithin_phrase {endLine : UInt32} {level : Level} {tokens : List Token}
    {tree : Expression} (spelled : Phrase level tokens tree) {room : Nat} {outer : Level}
    {whole rest : List Token} {chunk : Chunk} (looser : outer ≤ level)
    (follows : Follows level rest) (split : whole = tokens ++ rest)
    (fits : chunk.constants.size + tree.literals.length ≤ maxConstants)
    (shallow : tree.nesting ≤ room + 1) (short : rest.length < whole.length) :
    partWithin (.ok endLine) (room + 1) outer whole chunk =
      chain (.ok endLine) (partWithin (.ok endLine) room) outer rest
        (chunk.writeExpression tree) short := by
  -- Each case reads the first token of its phrase, and the hypotheses read the phrases inside it.
  induction spelled generalizing room outer whole rest chunk with
  | @number literal kind =>
    -- A literal is the whole operand, and there is room for its constant.
    have split : whole = literal :: rest := split
    subst split
    obtain ⟨line, looked⟩ := nextLine_ok endLine rest
    have space : chunk.constants.size < maxConstants := Nat.lt_of_succ_le fits
    rw [partWithin_succ, operand_number kind, looked, Chunk.writeConstant_of_lt space]
    rfl
  | @group opening closer tokens inside opens spelled closes ih =>
    have split : whole = opening :: (tokens ++ closer :: rest) := by simpa using split
    subst split
    obtain ⟨line, looked⟩ := nextLine_ok endLine (tokens ++ closer :: rest)
    obtain ⟨lastLine, lastLooked⟩ := nextLine_ok endLine rest
    -- The grouping opens a level of its own, and the parenthesis that closes it stops the sum.
    obtain ⟨inner, rfl⟩ := exists_room inside shallow
    have stops : Stops .sum (closer :: rest) := stops_rightParen closes rest
    have enough : inside.nesting ≤ inner + 1 := by simp only [Expression.nesting] at shallow; omega
    have inside := ih (Level.le_refl _) stops.follows rfl fits enough (spelled.length_lt _)
    rw [chain_stop stops] at inside
    rw [partWithin_succ, operand_leftParen opens, looked, inside]
    simp only [Except.bind, closing_rightParen closes, lastLooked, Chunk.writeExpression]
  | @negate sign tokens operand kind spelled ih =>
    have split : whole = sign :: (tokens ++ rest) := by simpa using split
    subst split
    obtain ⟨line, looked⟩ := nextLine_ok endLine (tokens ++ rest)
    -- The operand opens a level of its own, where no operator can continue a chain.
    obtain ⟨inner, rfl⟩ := exists_room operand shallow
    have enough : operand.nesting ≤ inner + 1 := by simp only [Expression.nesting] at shallow; omega
    have operand := ih (Level.le_refl _) follows rfl fits enough (spelled.length_lt _)
    rw [chain_stop (stops_unary rest)] at operand
    rw [partWithin_succ, operand_minus kind, looked, operand]
    rfl
  | factor spelled ih =>
    -- A unary phrase is a factor without operators, and nothing that follows takes it apart.
    exact ih (Level.le_trans looser (by decide)) (follows_unary rest) split fits shallow short
  | term spelled ih =>
    -- A factor is a term of a single operand, and what ends the term is looser than its operators.
    exact ih (Level.le_trans looser (by decide)) (follows.tighten (by decide)) split fits shallow
      short
  | @chain level operator op before after left right spells same leftSpelled rightSpelled leftIh
      rightIh =>
    subst same
    have split : whole = before ++ operator :: (after ++ rest) := by simpa using split
    obtain ⟨line, looked⟩ := nextLine_ok endLine (after ++ rest)
    simp only [Expression.nesting, Expression.literals, List.length_append] at shallow fits
    have behind : (operator :: (after ++ rest)).length < whole.length :=
      split ▸ leftSpelled.length_lt _
    -- The left operand is read at this level, and the operator behind it continues the chain.
    rw [leftIh looser (follows_operator spells _) split (by omega) (by omega) behind,
      chain_operator spells looser, looked]
    -- The right operand opens a level of its own, and what follows stops it.
    obtain ⟨inner, rfl⟩ : ∃ inner, room = inner + 1 :=
      Nat.exists_eq_add_one.2 (by have := right.nesting_pos; omega)
    rw [rightIh (Level.le_refl _) (follows.tighten op.level_le_rightLevel) rfl
        (by rw [Chunk.writeExpression_constants_size]; omega) (by omega)
        (rightSpelled.length_lt rest),
      chain_stop follows.stops]
    rfl

/-- A phrase that nests more deeply than the room allows is refused for that. -/
theorem partWithin_tooDeep {endLine : UInt32} {level : Level} {tokens : List Token}
    {tree : Expression} (spelled : Phrase level tokens tree) {room : Nat} {outer : Level}
    {whole rest : List Token} {chunk : Chunk} (looser : outer ≤ level)
    (follows : Follows level rest) (split : whole = tokens ++ rest)
    (fits : chunk.constants.size + tree.literals.length ≤ maxConstants)
    (deep : room < tree.nesting) :
    ∃ line, partWithin (.ok endLine) room outer whole chunk = .error ⟨.tooDeep, line⟩ := by
  -- At each node, the level that is missing is missing here or further inside.
  induction spelled generalizing room outer whole rest chunk with
  | @number literal kind =>
    -- Only a part without any room is too small for a literal.
    have none : room = 0 := Nat.lt_one_iff.1 deep
    subst none
    exact partWithin_no_room ..
  | @group opening closer tokens inside opens spelled closes ih =>
    cases room with
    -- Without room for the grouping itself, nothing inside is looked at.
    | zero => exact partWithin_no_room ..
    | succ room =>
      have split : whole = opening :: (tokens ++ closer :: rest) := by simpa using split
      subst split
      obtain ⟨_, looked⟩ := nextLine_ok endLine (tokens ++ closer :: rest)
      -- What is inside has one level less, and needs one level less.
      have deeper : room < inside.nesting := by simp only [Expression.nesting] at deep; omega
      obtain ⟨line, refused⟩ := ih (Level.le_refl _) (stops_rightParen closes rest).follows rfl
        fits deeper
      exact ⟨line, by rw [partWithin_succ, operand_leftParen opens, looked, refused]; rfl⟩
  | @negate sign tokens operand kind spelled ih =>
    cases room with
    -- Without room for the negation itself, its operand is not looked at.
    | zero => exact partWithin_no_room ..
    | succ room =>
      have split : whole = sign :: (tokens ++ rest) := by simpa using split
      subst split
      obtain ⟨_, looked⟩ := nextLine_ok endLine (tokens ++ rest)
      -- The operand has one level less, and needs one level less.
      have deeper : room < operand.nesting := by simp only [Expression.nesting] at deep; omega
      obtain ⟨line, refused⟩ := ih (Level.le_refl _) follows rfl fits deeper
      exact ⟨line, by rw [partWithin_succ, operand_minus kind, looked, refused]; rfl⟩
  | factor spelled ih =>
    -- Both levels are those of the same operand, so that nothing changes.
    exact ih (Level.le_trans looser (by decide)) (follows_unary rest) split fits deep
  | term spelled ih =>
    exact ih (Level.le_trans looser (by decide)) (follows.tighten (by decide)) split fits deep
  | @chain level operator op before after left right spells same leftSpelled rightSpelled leftIh
      rightIh =>
    subst same
    have split : whole = before ++ operator :: (after ++ rest) := by simpa using split
    simp only [Expression.nesting, Expression.literals, List.length_append] at deep fits
    have leftFollows := follows_operator spells (after ++ rest)
    by_cases leftDeep : room < left.nesting
    · -- A left operand that does not fit is refused in this very part.
      exact leftIh looser leftFollows split (by omega) leftDeep
    · -- A left operand that fits is read, so that it is the right one that does not.
      obtain ⟨inner, rfl⟩ : ∃ inner, room = inner + 1 :=
        Nat.exists_eq_add_one.2 (by have := left.nesting_pos; omega)
      have behind : (operator :: (after ++ rest)).length < whole.length :=
        split ▸ leftSpelled.length_lt _
      obtain ⟨_, looked⟩ := nextLine_ok endLine (after ++ rest)
      -- The literals on the left are in the pool already.
      have rightFits : (chunk.writeExpression left).constants.size + right.literals.length ≤
          maxConstants := by
        rw [Chunk.writeExpression_constants_size]
        omega
      have rightDeep : inner < right.nesting := by omega
      obtain ⟨line, refused⟩ := rightIh (Level.le_refl _)
        (follows.tighten op.level_le_rightLevel) rfl rightFits rightDeep
      refine ⟨line, ?_⟩
      -- The left operand is read, and the operator leads on to the one that is refused.
      rw [partWithin_phrase leftSpelled looser leftFollows split (by omega) (by omega) behind,
        chain_operator spells looser, looked, refused]
      rfl

/-- A phrase that is not too deep, but has too many literals, is refused for the literals. -/
theorem partWithin_overfull {endLine : UInt32} {level : Level} {tokens : List Token}
    {tree : Expression} (spelled : Phrase level tokens tree) {room : Nat} {outer : Level}
    {whole rest : List Token} {chunk : Chunk} (looser : outer ≤ level)
    (follows : Follows level rest) (split : whole = tokens ++ rest)
    (overfull : maxConstants < chunk.constants.size + tree.literals.length)
    (shallow : tree.nesting ≤ room + 1) :
    ∃ error line, partWithin (.ok endLine) (room + 1) outer whole chunk =
      .error ⟨.chunk error, line⟩ := by
  -- The literal that finds the pool full is the one to look for.
  induction spelled generalizing room outer whole rest chunk with
  | @number literal kind =>
    have split : whole = literal :: rest := split
    subst split
    obtain ⟨_, looked⟩ := nextLine_ok endLine rest
    -- A pool that cannot hold one literal more is full.
    have full : maxConstants ≤ chunk.constants.size := Nat.le_of_lt_succ overfull
    refine ⟨.tooManyConstants (chunk.constants.size + 1), literal.line, ?_⟩
    rw [partWithin_succ, operand_number kind, looked, Chunk.writeConstant_of_le full]
    rfl
  | @group opening closer tokens inside opens spelled closes ih =>
    have split : whole = opening :: (tokens ++ closer :: rest) := by simpa using split
    subst split
    obtain ⟨_, looked⟩ := nextLine_ok endLine (tokens ++ closer :: rest)
    obtain ⟨inner, rfl⟩ := exists_room inside shallow
    -- The grouping opens one level, and the literals are all inside.
    have enough : inside.nesting ≤ inner + 1 := by simp only [Expression.nesting] at shallow; omega
    obtain ⟨error, line, refused⟩ := ih (Level.le_refl _) (stops_rightParen closes rest).follows
      rfl overfull enough
    exact ⟨error, line, by rw [partWithin_succ, operand_leftParen opens, looked, refused]; rfl⟩
  | @negate sign tokens operand kind spelled ih =>
    have split : whole = sign :: (tokens ++ rest) := by simpa using split
    subst split
    obtain ⟨_, looked⟩ := nextLine_ok endLine (tokens ++ rest)
    obtain ⟨inner, rfl⟩ := exists_room operand shallow
    -- The sign opens one level, and the literals are all in its operand.
    have enough : operand.nesting ≤ inner + 1 := by simp only [Expression.nesting] at shallow; omega
    obtain ⟨error, line, refused⟩ := ih (Level.le_refl _) follows rfl overfull enough
    exact ⟨error, line, by rw [partWithin_succ, operand_minus kind, looked, refused]; rfl⟩
  | factor spelled ih =>
    exact ih (Level.le_trans looser (by decide)) (follows_unary rest) split overfull shallow
  | term spelled ih =>
    exact ih (Level.le_trans looser (by decide)) (follows.tighten (by decide)) split overfull
      shallow
  | @chain level operator op before after left right spells same leftSpelled rightSpelled leftIh
      rightIh =>
    subst same
    have split : whole = before ++ operator :: (after ++ rest) := by simpa using split
    simp only [Expression.nesting, Expression.literals, List.length_append] at shallow overfull
    have leftFollows := follows_operator spells (after ++ rest)
    by_cases leftOverfull : maxConstants < chunk.constants.size + left.literals.length
    · -- The left operand may already have more literals than there is room for.
      exact leftIh looser leftFollows split leftOverfull (by omega)
    · -- The literals on the left are written, so that those on the right are too many.
      obtain ⟨inner, rfl⟩ : ∃ inner, room = inner + 1 :=
        Nat.exists_eq_add_one.2 (by have := right.nesting_pos; omega)
      have behind : (operator :: (after ++ rest)).length < whole.length :=
        split ▸ leftSpelled.length_lt _
      obtain ⟨_, looked⟩ := nextLine_ok endLine (after ++ rest)
      have rightOverfull : maxConstants <
          (chunk.writeExpression left).constants.size + right.literals.length := by
        rw [Chunk.writeExpression_constants_size]
        omega
      have rightShallow : right.nesting ≤ inner + 1 := by omega
      obtain ⟨error, line, refused⟩ := rightIh (Level.le_refl _)
        (follows.tighten op.level_le_rightLevel) rfl rightOverfull rightShallow
      refine ⟨error, line, ?_⟩
      rw [partWithin_phrase leftSpelled looser leftFollows split (by omega) (by omega) behind,
        chain_operator spells looser, looked, refused]
      rfl

end Compile

end ByteCalc
