import ByteCalc.Proofs.Expression.Code

/-! One equation for each way in which the compiler goes on, and when a chain of operators stops. -/

namespace ByteCalc

/-- A sequence succeeds if both of its steps do. -/
theorem bind_eq_ok_iff {ε α β : Type} {first : Except ε α} {next : α → Except ε β}
    {result : β} :
    first.bind next = .ok result ↔ ∃ value, first = .ok value ∧ next value = .ok result := by
  -- Each of the two results of the first step is looked at.
  cases first <;> simp [Except.bind]

/-- A sequence fails if its first step does, or the next one after it. -/
theorem bind_eq_error_iff {ε α β : Type} {first : Except ε α} {next : α → Except ε β}
    {error : ε} :
    first.bind next = .error error ↔
      first = .error error ∨ ∃ value, first = .ok value ∧ next value = .error error := by
  -- Here too the first step has one of two results.
  cases first <;> simp [Except.bind]

namespace Compile

/-- No token continues a chain of a level: what comes next is no operator, or a looser one. -/
def Stops (level : Level) (tokens : List Token) : Prop :=
  ∀ token ∈ tokens.head?, ∀ op, token.kind.binaryOp? = some op → ¬ level ≤ op.level

/-- What comes next does not take a phrase of a level apart, as a tighter operator would. -/
def Follows (level : Level) (tokens : List Token) : Prop :=
  ∀ token ∈ tokens.head?, ∀ op, token.kind.binaryOp? = some op → op.level ≤ level

/-- Nothing that comes next takes a unary phrase apart. -/
theorem follows_unary (tokens : List Token) : Follows .unary tokens :=
  fun _ _ op _ => op.level.le_unary

/-- No operator continues a chain of unary operands. -/
theorem stops_unary (tokens : List Token) : Stops .unary tokens :=
  fun _ _ op _ => op.not_unary_le_level

/-- Where a chain stops, what comes next leaves it whole. -/
theorem Stops.follows {level : Level} {tokens : List Token} (stops : Stops level tokens) :
    Follows level tokens :=
  fun token next op spells => Level.le_of_not_le (stops token next op spells)

/-- What leaves a phrase whole leaves a tighter one whole too. -/
theorem Follows.tighten {loose tight : Level} {tokens : List Token} (follows : Follows loose tokens)
    (tighter : loose ≤ tight) : Follows tight tokens :=
  fun token next op spells => Level.le_trans (follows token next op spells) tighter

/-- What leaves the chain of an operator whole stops the chain of its right operand. -/
theorem Follows.stops {op : BinaryOp} {tokens : List Token} (follows : Follows op.level tokens) :
    Stops op.rightLevel tokens :=
  fun token next _ spells => BinaryOp.not_rightLevel_le (follows token next _ spells)

/-- What stops the chain of a right operand leaves the chain of its operator whole. -/
theorem Stops.follows_left {op : BinaryOp} {tokens : List Token}
    (stops : Stops op.rightLevel tokens) : Follows op.level tokens :=
  fun token next other spells => op.le_level_of_not_rightLevel_le (stops token next other spells)

/-- An operator leaves the chain of its own level whole, to its left. -/
theorem follows_operator {operator : Token} {op : BinaryOp}
    (spells : operator.kind.binaryOp? = some op) (rest : List Token) :
    Follows op.level (operator :: rest) := by
  -- The operator is what comes next, and its level is that of the chain.
  rintro token next other found
  cases next
  cases spells.symm.trans found
  exact Level.le_refl _

/-- A parenthesis that closes a grouping stops every chain. -/
theorem stops_rightParen {level : Level} {closer : Token} (closes : closer.kind = .rightParen)
    (rest : List Token) : Stops level (closer :: rest) := by
  -- The parenthesis is what comes next, and it is no operator.
  rintro token next op spells
  cases next
  simp [closes, TokenKind.binaryOp?] at spells

/-- Either a chain stops, or an operator continues it. -/
theorem stops_or_operator (level : Level) (tokens : List Token) :
    Stops level tokens ∨ ∃ token rest op,
      tokens = token :: rest ∧ token.kind.binaryOp? = some op ∧ level ≤ op.level := by
  -- It depends on the first token alone.
  cases tokens with
  -- There is no next token to continue with.
  | nil => exact .inl fun token next => nomatch next
  | cons token rest =>
    by_cases continued : ∃ op, token.kind.binaryOp? = some op ∧ level ≤ op.level
    · -- Such an operator is just what continues the chain.
      obtain ⟨op, spells, loose⟩ := continued
      exact .inr ⟨token, rest, op, rfl, spells, loose⟩
    · -- If there is none, then none of the first token continues it either.
      refine .inl fun next same op spells loose => continued ⟨op, ?_, loose⟩
      cases same
      exact spells

variable {ending : Except CompileError UInt32} {part : Part} {token : Token} {rest : List Token}
  {chunk : Chunk}

/-- Without room, a part is refused as soon as the next token has been scanned. -/
theorem partWithin_zero (level : Level) (tokens : List Token) :
    partWithin ending 0 level tokens chunk =
      (nextLine ending tokens).bind fun line => .error ⟨.tooDeep, line⟩ :=
  rfl

/-- With room, a part is its first operand and the chain behind that. -/
theorem partWithin_succ (room : Nat) (level : Level) (tokens : List Token) :
    partWithin ending (room + 1) level tokens chunk =
      (operand ending (partWithin ending room) tokens chunk).bind fun left =>
        chain ending (partWithin ending room) level left.rest left.chunk left.shorter :=
  rfl

/-- A literal is scanned past, and then stored with the load that goes with it. -/
theorem operand_number (kind : token.kind = .number) :
    operand ending part (token :: rest) chunk = (nextLine ending rest).bind fun _ =>
      match chunk.writeConstant (.ofLiteral token.lexeme) token.line with
      | .ok written => .ok ⟨rest, written, Nat.lt_succ_self _⟩
      | .error error => .error ⟨.chunk error, token.line⟩ := by
  simp only [operand, kind]
  rfl

/-- A parenthesis opens a sum, behind which it has to be closed. -/
theorem operand_leftParen (kind : token.kind = .leftParen) :
    operand ending part (token :: rest) chunk = (nextLine ending rest).bind fun _ =>
      (part .sum rest chunk).bind fun inside =>
        closing ending inside.rest inside.chunk (Nat.lt_succ_of_lt inside.shorter) := by
  simp only [operand, kind]
  rfl

/-- A sign is followed by a unary phrase, and its own instruction comes last. -/
theorem operand_minus (kind : token.kind = .minus) :
    operand ending part (token :: rest) chunk = (nextLine ending rest).bind fun _ =>
      (part .unary rest chunk).bind fun negated =>
        .ok ⟨negated.rest, negated.chunk.writeOpcode .negate token.line,
          Nat.lt_succ_of_lt negated.shorter⟩ := by
  simp only [operand, kind]
  rfl

/-- Any other token is refused, once what comes behind it has been scanned. -/
theorem operand_misplaced (number : token.kind ≠ .number) (leftParen : token.kind ≠ .leftParen)
    (minus : token.kind ≠ .minus) :
    operand ending part (token :: rest) chunk = (nextLine ending rest).bind fun _ =>
      .error (misplaced token) := by
  -- Every other kind of token falls to the last branch.
  obtain ⟨kind, lexeme, line⟩ := token
  cases kind
  case number => exact absurd rfl number
  case leftParen => exact absurd rfl leftParen
  case minus => exact absurd rfl minus
  all_goals rfl

/-- A parenthesis closes a grouping, and the token behind it is scanned. -/
theorem closing_rightParen {bound : Nat} {short : (token :: rest).length < bound}
    (kind : token.kind = .rightParen) :
    closing ending (token :: rest) chunk short = (nextLine ending rest).bind fun _ =>
      .ok ⟨rest, chunk, Nat.lt_of_succ_lt short⟩ := by
  -- The parenthesis is what is asked for.
  simp only [closing, if_pos kind]
  rfl

/-- Without a parenthesis to close it, a grouping is refused. -/
theorem closing_other {bound : Nat} {tokens : List Token} {short : tokens.length < bound}
    (other : ∀ token ∈ tokens.head?, token.kind ≠ .rightParen) :
    closing ending tokens chunk short =
      unexpected ending "Expect ')' after expression." tokens := by
  -- The end of the text is no parenthesis either.
  cases tokens with
  | nil => rfl
  | cons token rest => simp only [closing, if_neg (other token rfl)]

/-- A token in the wrong place never leads to a result. -/
theorem unexpected_ne_ok {α : Type} {wanted : String} {tokens : List Token} {result : α} :
    unexpected ending wanted tokens ≠ .ok result := by
  -- At the end, either the line or the fault of the text comes first.
  intro built
  cases tokens with
  | nil =>
    obtain ⟨_, _, impossible⟩ := bind_eq_ok_iff.1 built
    cases impossible
  | cons token rest => cases built

/-- An operator of the level takes its right operand, and the chain goes on behind it. -/
theorem chain_operator {level : Level} {op : BinaryOp} {bound : Nat}
    {short : (token :: rest).length < bound} (spells : token.kind.binaryOp? = some op)
    (loose : level ≤ op.level) :
    chain ending part level (token :: rest) chunk short = (nextLine ending rest).bind fun _ =>
      (part op.rightLevel rest chunk).bind fun right =>
        chain ending part level right.rest (right.chunk.writeOpcode (.binary op) token.line)
          (Nat.lt_trans (Nat.lt_succ_of_lt right.shorter) short) := by
  -- The operator is taken, as it belongs to this level or to a tighter one.
  rw [chain]
  simp only [spells, loose, if_true]
  rfl

/-- Where a chain stops, it leaves the tokens and the chunk as they are. -/
theorem chain_stop {level : Level} {tokens : List Token} {bound : Nat}
    {short : tokens.length < bound} (stops : Stops level tokens) :
    chain ending part level tokens chunk short = .ok ⟨tokens, chunk, short⟩ := by
  -- There is no next token, or it is no operator, or its level is looser.
  cases tokens with
  | nil => rw [chain]
  | cons token rest =>
    rw [chain]
    cases spells : token.kind.binaryOp? with
    | none => rfl
    | some op => simp only [if_neg (stops token rfl op spells)]

end Compile

end ByteCalc
