import ByteCalc.Proofs.Compile.Equations

/-! What is compiled is the longest phrase at the front of the tokens, and its code is written. -/

namespace ByteCalc

namespace Compile

/-- A phrase at the front of some tokens has been read, and its code is written to a chunk. -/
structure Reads (room : Nat) (level : Level) (tokens : List Token) (chunk : Chunk)
    (phrase : List Token) (tree : Expression) (rest : List Token) (written : Chunk) : Prop where
  /-- The phrase stands at the front of the tokens. -/
  split : tokens = phrase ++ rest
  /-- The phrase spells the expression at the level. -/
  spelled : Phrase level phrase tree
  /-- The expression nests no deeper than there is room for. -/
  shallow : tree.nesting ≤ room
  /-- The code of the expression is all that is written. -/
  code : written = chunk.writeExpression tree
  /-- The pool holds the literals of the expression. -/
  fits : written.constants.size ≤ maxConstants

/-- What a part has to give: a phrase that no operator of its level continues. -/
def ReadsLongest (room : Nat) (level : Level) (tokens : List Token) (chunk : Chunk)
    (rest : List Token) (written : Chunk) : Prop :=
  ∃ phrase tree, Reads room level tokens chunk phrase tree rest written ∧ Stops level rest

variable {ending : Except CompileError UInt32} {room : Nat}

/-- A literal is read as itself, if the pool takes its value. -/
theorem Reads.literal {token : Token} {rest : List Token} {chunk written : Chunk}
    (kind : token.kind = .number)
    (taken : chunk.writeConstant (.ofLiteral token.lexeme) token.line = .ok written) :
    Reads (room + 1) .unary (token :: rest) chunk [token] (.number token) rest written := by
  obtain ⟨space, code⟩ := Chunk.writeConstant_eq_ok taken
  refine ⟨rfl, .number kind, Nat.le_add_left 1 room, code, ?_⟩
  -- One constant is added to a pool that was not full.
  have size := chunk.writeExpression_constants_size (.number token)
  simp only [Chunk.writeExpression, ← code, Expression.literals, List.length_singleton] at size
  omega

/-- A sum between parentheses is read as a grouping. -/
theorem Reads.grouping {opening closer : Token} {tail phrase rest : List Token}
    {chunk written : Chunk} {tree : Expression} (opens : opening.kind = .leftParen)
    (read : Reads room .sum tail chunk phrase tree (closer :: rest) written)
    (closes : closer.kind = .rightParen) :
    Reads (room + 1) .unary (opening :: tail) chunk (opening :: (phrase ++ [closer]))
      (.group tree) rest written where
  split := by simp [read.split]
  spelled := .group opens read.spelled closes
  shallow := by
    -- The grouping adds one level to those inside.
    have := read.shallow
    simp only [Expression.nesting]
    omega
  code := by rw [read.code, Chunk.writeExpression]
  fits := read.fits

/-- A sign and the unary phrase after it are read as a negation. -/
theorem Reads.negation {sign : Token} {tail phrase rest : List Token} {chunk written : Chunk}
    {tree : Expression} (kind : sign.kind = .minus)
    (read : Reads room .unary tail chunk phrase tree rest written) :
    Reads (room + 1) .unary (sign :: tail) chunk (sign :: phrase) (.negate sign tree) rest
      (written.writeOpcode .negate sign.line) where
  split := by simp [read.split]
  spelled := .negate kind read.spelled
  shallow := by
    -- The sign adds one level to those of its operand.
    have := read.shallow
    simp only [Expression.nesting]
    omega
  code := by rw [read.code, Chunk.writeExpression]
  fits := read.fits

/-- An operator and its right operand make a phrase longer. -/
theorem Reads.operator {level : Level} {whole phrase rightPhrase rest : List Token} {token : Token}
    {base chunk written : Chunk} {tree rightTree : Expression} {op : BinaryOp} {tail : List Token}
    (read : Reads (room + 1) level whole base phrase tree (token :: tail) chunk)
    (spells : token.kind.binaryOp? = some op) (tighter : op.level ≤ level)
    (right : Reads room op.rightLevel tail chunk rightPhrase rightTree rest written) :
    Reads (room + 1) op.level whole base (phrase ++ token :: rightPhrase)
      (.binary op token tree rightTree) rest (written.writeOpcode (.binary op) token.line) where
  split := by rw [read.split, right.split, List.append_assoc, List.cons_append]
  -- What stands on the left is a phrase of any tighter level, and so of this one.
  spelled := .chain spells rfl (read.spelled.loosen tighter) right.spelled
  shallow := by
    -- The right operand is one level further inside, and the left one is not.
    have := read.shallow
    have := right.shallow
    simp only [Expression.nesting]
    omega
  code := by rw [right.code, read.code, Chunk.writeExpression]
  fits := right.fits

/-- A chain reads on from a phrase to the longest one of its level. -/
theorem chain_reads {level : Level}
    (partReads : ∀ level tokens chunk result,
      partWithin ending room level tokens chunk = .ok result →
        ReadsLongest room level tokens chunk result.rest result.chunk)
    {bound : Nat} {tokens : List Token} {chunk : Chunk} {short : tokens.length < bound}
    {result : Compiled bound}
    (built : chain ending (partWithin ending room) level tokens chunk short = .ok result)
    {inner : Level} {whole phrase : List Token} {base : Chunk} {tree : Expression}
    (read : Reads (room + 1) inner whole base phrase tree tokens chunk) (loose : level ≤ inner)
    (follows : Follows inner tokens) :
    ReadsLongest (room + 1) level whole base result.rest result.chunk := by
  -- Each operator leaves fewer tokens, and what has been read is the left operand of the next.
  induction size : tokens.length using Nat.strongRecOn generalizing tokens chunk inner phrase tree
  rename_i ih
  subst size
  rcases stops_or_operator level tokens with stops | ⟨token, tail, op, rfl, spells, looser⟩
  · -- The chain stops at once, and what has been read is all there is.
    rw [chain_stop stops] at built
    cases built
    exact ⟨phrase, tree, ⟨read.split, read.spelled.loosen loose, read.shallow, read.code,
      read.fits⟩, stops⟩
  · -- The operator is taken, and its right operand is the longest phrase of the next level.
    rw [chain_operator spells looser] at built
    obtain ⟨_, _, built⟩ := bind_eq_ok_iff.1 built
    obtain ⟨right, rightBuilt, built⟩ := bind_eq_ok_iff.1 built
    obtain ⟨rightPhrase, rightTree, rightRead, stops⟩ := partReads _ _ _ _ rightBuilt
    have extended := read.operator spells (follows token rfl op spells) rightRead
    exact ih _ (Nat.lt_succ_of_lt right.shorter) built extended looser stops.follows_left rfl

/-- Only a closing parenthesis closes a grouping. -/
theorem closing_eq_ok {tokens : List Token} {chunk : Chunk} {bound : Nat}
    {short : tokens.length < bound} {result : Compiled bound}
    (built : closing ending tokens chunk short = .ok result) :
    ∃ closer, tokens = closer :: result.rest ∧ closer.kind = .rightParen ∧
      result.chunk = chunk := by
  -- Without a parenthesis, an error takes the place of the result.
  by_cases other : ∀ token ∈ tokens.head?, token.kind ≠ .rightParen
  · -- Anything but a parenthesis is an error.
    rw [closing_other other] at built
    exact absurd built unexpected_ne_ok
  · -- The parenthesis is taken, and the chunk is not touched.
    obtain ⟨closer, first, closes⟩ : ∃ token ∈ tokens.head?, token.kind = .rightParen := by
      simpa using other
    obtain ⟨rest, rfl⟩ := List.head?_eq_some_iff.1 first
    rw [closing_rightParen closes] at built
    obtain ⟨_, _, built⟩ := bind_eq_ok_iff.1 built
    cases built
    exact ⟨closer, rfl, closes, rfl⟩

/-- An operand is a literal, a grouping or a negation, and is read as one. -/
theorem operand_reads
    (partReads : ∀ level tokens chunk result,
      partWithin ending room level tokens chunk = .ok result →
        ReadsLongest room level tokens chunk result.rest result.chunk)
    {tokens : List Token} {chunk : Chunk} {result : Compiled tokens.length}
    (built : operand ending (partWithin ending room) tokens chunk = .ok result) :
    ∃ phrase tree, Reads (room + 1) .unary tokens chunk phrase tree result.rest result.chunk := by
  -- There is one case for each kind of token that begins an operand.
  cases tokens with
  | nil =>
    -- At the end of the tokens there is no operand.
    obtain ⟨_, _, impossible⟩ := bind_eq_ok_iff.1 built
    cases impossible
  | cons token rest =>
    by_cases number : token.kind = .number
    · -- A literal is stored with its load, unless the pool refuses it.
      rw [operand_number number] at built
      obtain ⟨_, _, built⟩ := bind_eq_ok_iff.1 built
      split at built <;> cases built
      next written taken => exact ⟨_, _, .literal number taken⟩
    by_cases leftParen : token.kind = .leftParen
    · -- The grouping is read inside, and then closed.
      rw [operand_leftParen leftParen] at built
      obtain ⟨_, _, built⟩ := bind_eq_ok_iff.1 built
      obtain ⟨inside, insideBuilt, built⟩ := bind_eq_ok_iff.1 built
      obtain ⟨phrase, tree, read, _⟩ := partReads _ _ _ _ insideBuilt
      obtain ⟨closer, split, closes, sameChunk⟩ := closing_eq_ok built
      rw [split, ← sameChunk] at read
      exact ⟨_, _, .grouping leftParen read closes⟩
    by_cases minus : token.kind = .minus
    · -- The operand of the sign is read, and then its instruction is written.
      rw [operand_minus minus] at built
      obtain ⟨_, _, built⟩ := bind_eq_ok_iff.1 built
      obtain ⟨negated, negatedBuilt, built⟩ := bind_eq_ok_iff.1 built
      cases built
      obtain ⟨phrase, tree, read, _⟩ := partReads _ _ _ _ negatedBuilt
      exact ⟨_, _, .negation minus read⟩
    · rw [operand_misplaced number leftParen minus] at built
      obtain ⟨_, _, impossible⟩ := bind_eq_ok_iff.1 built
      cases impossible

/-- Whatever is compiled is the longest phrase of its level, with the code of its expression. -/
theorem partWithin_reads (ending : Except CompileError UInt32) (room : Nat) :
    ∀ level tokens chunk result,
      partWithin ending room level tokens chunk = .ok result →
        ReadsLongest room level tokens chunk result.rest result.chunk := by
  -- The parts inside a part have one level less to open.
  induction room with
  | zero =>
    intro level tokens chunk result built
    rw [partWithin_zero] at built
    obtain ⟨_, _, impossible⟩ := bind_eq_ok_iff.1 built
    cases impossible
  | succ room ih =>
    intro level tokens chunk result built
    rw [partWithin_succ] at built
    -- The first operand is read, and the chain extends it as far as it goes.
    obtain ⟨left, leftBuilt, built⟩ := bind_eq_ok_iff.1 built
    obtain ⟨phrase, tree, read⟩ := operand_reads ih leftBuilt
    exact chain_reads ih built read level.le_unary (follows_unary _)

end Compile

end ByteCalc
