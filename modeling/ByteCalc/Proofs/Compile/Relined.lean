import ByteCalc.Proofs.Compile.Acceptance
import ByteCalc.Proofs.Expression.Relined

/-! Tokens on other lines are refused for the same fault, and at the token in the same place. -/

namespace ByteCalc

namespace Compile

section Lines

variable {endLine : UInt32} {count place room : Nat} {level : Level}
  {tokens phrase rest : List Token} {chunk written : Chunk} {tree : Expression}
  {error : CompileError}

/-- Before the end of a text without faults, a look at the next line changes nothing. -/
theorem nextLine_bind {α : Type} (endLine : UInt32) (tokens : List Token)
    (next : Except CompileError α) :
    (nextLine (.ok endLine) tokens).bind (fun _ => next) = next := by
  -- The line that is looked up is not used.
  obtain ⟨_, looked⟩ := nextLine_ok endLine tokens
  rw [looked]
  rfl

/-- What can be said about the kind of the next token does not depend on the lines. -/
theorem forall_head?_reline (property : TokenKind → Prop) (lines : Nat → UInt32) (place : Nat)
    (holds : ∀ token ∈ tokens.head?, property token.kind) :
    ∀ token ∈ (reline lines place tokens).head?, property token.kind := by
  -- Another line does not change the kind of a token.
  rintro token next
  cases tokens with
  | nil => cases next
  | cons first rest =>
    cases next
    exact holds first rfl

/-- A chain that stops goes on stopping on all lines. -/
theorem Stops.reline (stops : Stops level tokens) (lines : Nat → UInt32) (place : Nat) :
    Stops level (reline lines place tokens) :=
  forall_head?_reline (fun kind => ∀ op, kind.binaryOp? = some op → ¬ level ≤ op.level) lines place
    stops

/-- The place of the token behind what has been read is counted on from there. -/
theorem Reads.place_rest (read : Reads room level tokens chunk phrase tree rest written)
    (size : place + tokens.length = count) : place + phrase.length + rest.length = count := by
  -- The phrase and the rest are all of the tokens.
  have whole := congrArg List.length read.split
  rw [List.length_append] at whole
  omega

/-- How much room is left in the pool does not depend on the lines. -/
theorem Reads.fits_reline {other : Chunk}
    (read : Reads room level tokens chunk phrase tree rest written)
    (same : other.constants.size = chunk.constants.size) (lines : Nat → UInt32) (place : Nat) :
    other.constants.size + (tree.reline lines place).literals.length ≤ maxConstants := by
  -- Other lines make no more literals.
  have fits := read.fits
  rw [read.code, Chunk.writeExpression_constants_size] at fits
  rw [Expression.length_literals_reline, same]
  exact fits

/-- As many constants are written on all lines. -/
theorem Reads.size_reline {other : Chunk}
    (read : Reads room level tokens chunk phrase tree rest written)
    (same : other.constants.size = chunk.constants.size) (lines : Nat → UInt32) (place : Nat) :
    (other.writeExpression (tree.reline lines place)).constants.size = written.constants.size := by
  -- The number of literals is all that counts.
  rw [read.code, Chunk.writeExpression_constants_size, Chunk.writeExpression_constants_size,
    Expression.length_literals_reline, same]

/-- What has been read is read on all lines. -/
theorem Reads.partWithin_reline (read : Reads room level tokens chunk phrase tree rest written)
    (stops : Stops level rest) (lines : Nat → UInt32) (place : Nat) {other : Chunk}
    (same : other.constants.size = chunk.constants.size) (endLine : UInt32) :
    ∃ short, partWithin (.ok endLine) room level (reline lines place tokens) other =
      .ok ⟨reline lines (place + phrase.length) rest,
        other.writeExpression (tree.reline lines place), short⟩ := by
  -- An expression needs a level, so that there is room for one.
  obtain ⟨inner, rfl⟩ : ∃ inner, room = inner + 1 :=
    Nat.exists_eq_add_one.2 (Nat.lt_of_lt_of_le tree.nesting_pos read.shallow)
  -- On other lines, the same phrase stands in front of the same rest.
  have spelled := read.spelled.reline lines place
  have split : reline lines place tokens =
      reline lines place phrase ++ reline lines (place + phrase.length) rest := by
    rw [read.split, reline_append]
  have stops := stops.reline lines (place + phrase.length)
  have short : (reline lines (place + phrase.length) rest).length <
      (reline lines place tokens).length := split ▸ spelled.length_lt _
  have shallow : (tree.reline lines place).nesting ≤ inner + 1 := by
    rw [Expression.nesting_reline]
    exact read.shallow
  refine ⟨short, ?_⟩
  rw [partWithin_phrase spelled (Level.le_refl _) stops.follows split
    (read.fits_reline same lines place) shallow short, chain_stop stops]

/-- A token that is out of place is refused for the same fault on all lines. -/
theorem misplaced_atLine (token : Token) (line : UInt32) :
    misplaced (token.atLine line) = ⟨(misplaced token).fault, line⟩ := by
  -- The fault depends on the kind and the lexeme alone.
  unfold misplaced
  split <;> simp_all [Token.atLine]

/-- What is not the token that is wanted is refused at the same place on all lines. -/
theorem unexpected_fails {α : Type} {wanted : String} (size : place + tokens.length = count)
    (failed : (unexpected (.ok endLine) wanted tokens : Except CompileError α) = .error error) :
    ∃ spot ≤ count, ∀ lines (β : Type),
      (unexpected (.ok (lines count)) wanted (reline lines place tokens) : Except CompileError β) =
        .error ⟨error.fault, lines spot⟩ := by
  -- The error is blamed on the next token, or on the end where there is none.
  refine ⟨place, by omega, fun lines β => ?_⟩
  cases tokens with
  -- Without a token, the line of the end is reported.
  | nil =>
    cases failed
    obtain rfl : place = count := size
    rfl
  -- The token is the same but for its line, which is reported.
  | cons token rest =>
    cases failed
    rfl

/-- A grouping that is not closed is refused at the same place on all lines. -/
theorem closing_fails {bound : Nat} {short : tokens.length < bound}
    (size : place + tokens.length = count)
    (failed : closing (.ok endLine) tokens chunk short = .error error) :
    ∃ spot ≤ count, ∀ lines whole other bound' (short : whole.length < bound'),
      whole = reline lines place tokens →
        closing (.ok (lines count)) whole other short = .error ⟨error.fault, lines spot⟩ := by
  -- The parenthesis is missing on all lines, or on none of them.
  by_cases refused : ∀ token ∈ tokens.head?, token.kind ≠ .rightParen
  · rw [closing_other refused] at failed
    obtain ⟨spot, inside, fails⟩ := unexpected_fails size failed
    refine ⟨spot, inside, fun lines whole other bound' short split => ?_⟩
    subst split
    rw [closing_other (forall_head?_reline (· ≠ .rightParen) lines place refused), fails]
  · -- A parenthesis that closes the grouping is no failure.
    obtain ⟨closer, first, closes⟩ : ∃ token ∈ tokens.head?, token.kind = .rightParen := by
      simpa using refused
    obtain ⟨rest, rfl⟩ := List.head?_eq_some_iff.1 first
    rw [closing_rightParen closes, nextLine_bind] at failed
    cases failed

/-- What a part has to give when it fails: the same failure on all lines. -/
def PartFailsAlike (endLine : UInt32) (count room : Nat) : Prop :=
  ∀ level tokens chunk place error, place + tokens.length = count →
    partWithin (.ok endLine) room level tokens chunk = .error error →
      ∃ spot ≤ count, ∀ lines whole (other : Chunk), whole = reline lines place tokens →
        other.constants.size = chunk.constants.size →
          partWithin (.ok (lines count)) room level whole other =
            .error ⟨error.fault, lines spot⟩

/-- A chain fails in a right operand. -/
theorem chain_fails (partFails : PartFailsAlike endLine count room) {bound : Nat}
    {short : tokens.length < bound} (size : place + tokens.length = count)
    (failed : chain (.ok endLine) (partWithin (.ok endLine) room) level tokens chunk short =
      .error error) :
    ∃ spot ≤ count, ∀ lines whole other bound' (short : whole.length < bound'),
      whole = reline lines place tokens → other.constants.size = chunk.constants.size →
        chain (.ok (lines count)) (partWithin (.ok (lines count)) room) level whole other short =
          .error ⟨error.fault, lines spot⟩ := by
  -- Each operator and its right operand leave fewer tokens to the rest of the chain.
  induction length : tokens.length using Nat.strongRecOn generalizing tokens chunk place bound
  rename_i ih
  subst length
  rcases stops_or_operator level tokens with stops | ⟨token, tail, op, rfl, spells, looser⟩
  · -- A chain that stops does not fail.
    rw [chain_stop stops] at failed
    cases failed
  have behind : place + 1 + tail.length = count := by
    rw [← size, List.length_cons]
    omega
  -- The operator spells the same operation on every line.
  have spelled (lines : Nat → UInt32) : (token.atLine (lines place)).kind.binaryOp? = some op :=
    spells
  rw [chain_operator spells looser, nextLine_bind] at failed
  rcases bind_eq_error_iff.1 failed with onRight | ⟨right, rightBuilt, failed⟩
  · -- The right operand fails, and it does so on all lines.
    obtain ⟨spot, inside, fails⟩ := partFails _ _ _ _ _ behind onRight
    refine ⟨spot, inside, fun lines whole other bound' short split same => ?_⟩
    rw [reline] at split
    subst split
    rw [chain_operator (spelled lines) looser, nextLine_bind, fails lines _ other rfl same]
    rfl
  · -- The right operand is read on all lines, so that the chain behind it fails.
    obtain ⟨phrase, tree, read, stops⟩ := partWithin_reads _ _ _ _ _ _ rightBuilt
    obtain ⟨spot, inside, fails⟩ :=
      ih _ (Nat.lt_succ_of_lt right.shorter) (read.place_rest behind) failed rfl
    refine ⟨spot, inside, fun lines whole other bound' short split same => ?_⟩
    rw [reline] at split
    subst split
    obtain ⟨_, relined⟩ := read.partWithin_reline stops lines (place + 1) same (lines count)
    rw [chain_operator (spelled lines) looser, nextLine_bind, relined]
    exact fails lines _ _ _ _ rfl (read.size_reline same lines (place + 1))

/-- The failure of an operand, at one of the places up to the end, happens on all lines. -/
def OperandFailsAlike (count room place : Nat) (tokens : List Token) (chunk : Chunk)
    (fault : CompileFault) : Prop :=
  ∃ spot ≤ count, ∀ lines whole (other : Chunk), whole = reline lines place tokens →
    other.constants.size = chunk.constants.size →
      operand (.ok (lines count)) (partWithin (.ok (lines count)) room) whole other =
        .error ⟨fault, lines spot⟩

section Operands

variable {token : Token}

/-- A literal fails at its token, if the pool is full. -/
theorem literal_fails (number : token.kind = .number)
    (size : place + 1 + rest.length = count)
    (failed : operand (.ok endLine) (partWithin (.ok endLine) room) (token :: rest) chunk =
      .error error) :
    OperandFailsAlike count room place (token :: rest) chunk error.fault := by
  -- The look behind the literal succeeds on all lines, so that the pool is what fails.
  rw [operand_number number, nextLine_bind] at failed
  refine ⟨place, by omega, fun lines whole other split same => ?_⟩
  rw [reline] at split
  subst split
  have literal : (token.atLine (lines place)).kind = .number := number
  by_cases space : chunk.constants.size < maxConstants
  · rw [Chunk.writeConstant_of_lt space] at failed
    cases failed
  · -- A pool of the same size is as full.
    have full : maxConstants ≤ other.constants.size := by omega
    rw [Chunk.writeConstant_of_le (Nat.le_of_not_lt space)] at failed
    cases failed
    rw [operand_number literal, nextLine_bind, Chunk.writeConstant_of_le full, same]
    rfl

/-- A grouping fails inside, or at the token that should close it. -/
theorem grouping_fails (partFails : PartFailsAlike endLine count room)
    (leftParen : token.kind = .leftParen) (size : place + 1 + rest.length = count)
    (failed : operand (.ok endLine) (partWithin (.ok endLine) room) (token :: rest) chunk =
      .error error) :
    OperandFailsAlike count room place (token :: rest) chunk error.fault := by
  -- The look behind the parenthesis succeeds on all lines.
  rw [operand_leftParen leftParen, nextLine_bind] at failed
  have opens (lines : Nat → UInt32) : (token.atLine (lines place)).kind = .leftParen := leftParen
  rcases bind_eq_error_iff.1 failed with within | ⟨inside, insideBuilt, failed⟩
  · -- What is inside fails, and it does so on all lines.
    obtain ⟨spot, bound, fails⟩ := partFails _ _ _ _ _ size within
    refine ⟨spot, bound, fun lines whole other split same => ?_⟩
    rw [reline] at split
    subst split
    rw [operand_leftParen (opens lines), nextLine_bind, fails lines _ other rfl same]
    rfl
  · -- The inside is read on all lines, so that the token behind it is refused.
    obtain ⟨phrase, tree, read, stops⟩ := partWithin_reads _ _ _ _ _ _ insideBuilt
    obtain ⟨spot, bound, fails⟩ := closing_fails (read.place_rest size) failed
    refine ⟨spot, bound, fun lines whole other split same => ?_⟩
    rw [reline] at split
    subst split
    obtain ⟨_, relined⟩ := read.partWithin_reline stops lines (place + 1) same (lines count)
    rw [operand_leftParen (opens lines), nextLine_bind, relined]
    exact fails lines _ _ _ _ rfl

/-- A sign fails in its operand. -/
theorem sign_fails (partFails : PartFailsAlike endLine count room)
    (minus : token.kind = .minus) (size : place + 1 + rest.length = count)
    (failed : operand (.ok endLine) (partWithin (.ok endLine) room) (token :: rest) chunk =
      .error error) :
    OperandFailsAlike count room place (token :: rest) chunk error.fault := by
  -- A sign itself never fails, so that the failure is one of its operand.
  rw [operand_minus minus, nextLine_bind] at failed
  rcases bind_eq_error_iff.1 failed with within | ⟨_, _, impossible⟩
  · -- The operand fails, and it does so on all lines.
    obtain ⟨spot, bound, fails⟩ := partFails _ _ _ _ _ size within
    refine ⟨spot, bound, fun lines whole other split same => ?_⟩
    rw [reline] at split
    subst split
    have sign : (token.atLine (lines place)).kind = .minus := minus
    rw [operand_minus sign, nextLine_bind, fails lines _ other rfl same]
    rfl
  · cases impossible

/-- Any other token is refused where it stands. -/
theorem misplaced_fails (number : token.kind ≠ .number) (leftParen : token.kind ≠ .leftParen)
    (minus : token.kind ≠ .minus) (size : place + 1 + rest.length = count)
    (failed : operand (.ok endLine) (partWithin (.ok endLine) room) (token :: rest) chunk =
      .error error) :
    OperandFailsAlike count room place (token :: rest) chunk error.fault := by
  -- The failure is blamed on the token itself, whatever its line is.
  rw [operand_misplaced number leftParen minus, nextLine_bind] at failed
  cases failed
  refine ⟨place, by omega, fun lines whole other split same => ?_⟩
  rw [reline] at split
  subst split
  have noNumber : (token.atLine (lines place)).kind ≠ .number := number
  have noLeftParen : (token.atLine (lines place)).kind ≠ .leftParen := leftParen
  have noMinus : (token.atLine (lines place)).kind ≠ .minus := minus
  rw [operand_misplaced noNumber noLeftParen noMinus, nextLine_bind, misplaced_atLine]

end Operands

/-- An operand fails at its first token, or inside of it. -/
theorem operand_fails (partFails : PartFailsAlike endLine count room)
    (size : place + tokens.length = count)
    (failed : operand (.ok endLine) (partWithin (.ok endLine) room) tokens chunk = .error error) :
    OperandFailsAlike count room place tokens chunk error.fault := by
  cases tokens with
  -- At the end of the tokens, the end itself is blamed.
  | nil =>
    obtain rfl : place = count := size
    cases failed
    refine ⟨place, Nat.le_refl _, fun lines whole other split same => ?_⟩
    subst split
    rfl
  | cons token rest =>
    have behind : place + 1 + rest.length = count := by
      rw [← size, List.length_cons]
      omega
    -- The kind of the first token is the same on all lines, and so is what it leads to.
    by_cases number : token.kind = .number
    · exact literal_fails number behind failed
    by_cases leftParen : token.kind = .leftParen
    · exact grouping_fails partFails leftParen behind failed
    by_cases minus : token.kind = .minus
    · exact sign_fails partFails minus behind failed
    · exact misplaced_fails number leftParen minus behind failed

/-- A part fails in its first operand or in the chain behind that. -/
theorem partWithin_fails (endLine : UInt32) (count room : Nat) :
    PartFailsAlike endLine count room := by
  -- The parts inside a part have one level less to open.
  induction room with
  | zero =>
    -- Without room, the next token is blamed, or the end.
    intro level tokens chunk place error size failed
    rw [partWithin_zero] at failed
    refine ⟨place, by omega, fun lines whole other split same => ?_⟩
    subst split
    rw [partWithin_zero]
    cases tokens with
    | nil =>
      cases failed
      obtain rfl : place = count := size
      rfl
    | cons token rest =>
      cases failed
      rfl
  | succ room ih =>
    intro level tokens chunk place error size failed
    rw [partWithin_succ] at failed
    rcases bind_eq_error_iff.1 failed with inOperand | ⟨left, leftBuilt, failed⟩
    · -- The first operand fails, and it does so on all lines.
      obtain ⟨spot, inside, fails⟩ := operand_fails ih size inOperand
      refine ⟨spot, inside, fun lines whole other split same => ?_⟩
      rw [partWithin_succ, fails lines whole other split same]
      rfl
    · -- The operand is read on all lines, so that the chain behind it fails on all of them.
      obtain ⟨phrase, tree, read⟩ := operand_reads (partWithin_reads _ room) leftBuilt
      obtain ⟨spot, inside, fails⟩ := chain_fails ih (read.place_rest size) failed
      refine ⟨spot, inside, fun lines whole other split same => ?_⟩
      subst split
      have spelled := read.spelled.reline lines place
      have cut : reline lines place tokens =
          reline lines place phrase ++ reline lines (place + phrase.length) left.rest := by
        rw [← reline_append, ← read.split]
      have shallow : (tree.reline lines place).nesting ≤ room + 1 := by
        rw [Expression.nesting_reline]
        exact read.shallow
      rw [partWithin_phrase spelled level.le_unary (follows_unary _) cut
        (read.fits_reline same lines place) shallow (cut ▸ spelled.length_lt _)]
      exact fails lines _ _ _ _ rfl (read.size_reline same lines place)

/-- Behind a sum, any token that is left over is refused. -/
theorem conclude_fails {bound : Nat} {whole : Compiled bound}
    (size : place + whole.rest.length = count)
    (failed : conclude (.ok endLine) whole = .error error) :
    ∃ spot ≤ count, ∀ lines bound' (other : Compiled bound'),
      other.rest = reline lines place whole.rest →
        conclude (.ok (lines count)) other = .error ⟨error.fault, lines spot⟩ := by
  -- Something is left over, as there is a result otherwise.
  unfold conclude at failed
  split at failed
  · cases failed
  next some =>
    obtain ⟨spot, inside, fails⟩ := unexpected_fails size failed
    refine ⟨spot, inside, fun lines bound' other split => ?_⟩
    -- The tokens that are left over are as many on all lines.
    have extra : other.rest ≠ [] := fun none => some <| by
      rw [← List.length_eq_zero_iff, ← length_reline lines place, ← split, none, List.length_nil]
    unfold conclude
    split
    next none => exact absurd none extra
    next => rw [split, fails]

end Lines

/-- A text is refused on all lines for the same fault, and at the token in the same place. -/
theorem compile_fails {source : String} {tokens : List Token} {endLine : UInt32}
    {error : CompileError} (lexed : lex source = ⟨tokens, .ok endLine⟩)
    (failed : compile source = .error error) :
    ∃ spot ≤ tokens.length, ∀ lines other,
      lex other = ⟨reline lines 0 tokens, .ok (lines tokens.length)⟩ →
        compile other = .error ⟨error.fault, lines spot⟩ := by
  have size : 0 + tokens.length = tokens.length := Nat.zero_add _
  -- The first look succeeds, so that the sum or what is left behind it fails.
  rw [compile_eq, lexed] at failed
  simp only [nextLine_bind] at failed
  rcases bind_eq_error_iff.1 failed with inSum | ⟨whole, parsed, failed⟩
  · -- The sum fails, and it does so on all lines.
    obtain ⟨spot, inside, fails⟩ := partWithin_fails _ _ _ _ _ _ _ _ size inSum
    refine ⟨spot, inside, fun lines other relexed => ?_⟩
    rw [compile_eq, relexed]
    simp only [nextLine_bind, fails lines _ _ rfl rfl]
    rfl
  · -- What has been read is a sum, so that only a token behind it can be refused.
    obtain ⟨phrase, tree, read, stops⟩ := partWithin_reads _ _ _ _ _ _ parsed
    obtain ⟨spot, inside, fails⟩ := conclude_fails (read.place_rest size) failed
    refine ⟨spot, inside, fun lines other relexed => ?_⟩
    obtain ⟨_, relined⟩ := read.partWithin_reline stops lines 0 rfl (lines tokens.length)
    rw [compile_eq, relexed]
    simp only [nextLine_bind, relined]
    exact fails lines _ _ rfl

end Compile

end ByteCalc
