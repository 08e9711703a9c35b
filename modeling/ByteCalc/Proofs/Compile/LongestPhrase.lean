import ByteCalc.Proofs.Compile.Counted
import ByteCalc.Proofs.Compile.Output

/-! A part takes the longest phrase of its level, adds its code and gives its levels back. -/

namespace ByteCalc

/-- The operator that an instruction applies. -/
def Instruction.operator? : Instruction → Option BinaryOp
  | binary op => some op
  | load _ | negate | ret => none

namespace Placed

/-- The number of loads among some instructions. -/
def loads (program : List Placed) : Nat :=
  program.countP (·.instruction.index?.isSome)

/-- The number of operators among some instructions. -/
def operators (program : List Placed) : Nat :=
  program.countP (·.instruction.operator?.isSome)

/-- Loads are counted piece by piece. -/
theorem loads_append (first second : List Placed) :
    loads (first ++ second) = loads first + loads second :=
  List.countP_append

/-- Operators are counted piece by piece. -/
theorem operators_append (first second : List Placed) :
    operators (first ++ second) = operators first + operators second :=
  List.countP_append

end Placed

/-- The code of an expression has one load more than it has operators. -/
theorem Expression.loads_code (tree : Expression) (first : Nat) :
    Placed.loads (tree.code first) = Placed.operators (tree.code first) + 1 := by
  -- An operator has one load more than operators on either side, and is the one that is missing.
  induction tree generalizing first with
  | number literal => rfl
  | group inside ih => exact ih first
  | negate sign operand ih =>
    -- A sign is neither a load nor an operator.
    rw [code, Placed.loads_append, Placed.operators_append, ih]
    rfl
  | binary op operator left right leftIh rightIh =>
    have loads : Placed.loads [⟨.binary op, operator.line⟩] = 0 := rfl
    have operators : Placed.operators [⟨.binary op, operator.line⟩] = 1 := rfl
    simp only [code, Placed.loads_append, Placed.operators_append, leftIh, rightIh, loads,
      operators]
    omega

namespace Compile

/-- Behind a phrase, only an operator that is not too loose goes on to a longer one. -/
theorem length_le_of_stops {level : Level} {tokens phrase rest other : List Token}
    {tree otherTree : Expression} (spelled : Phrase level phrase tree)
    (split : tokens = phrase ++ rest) (stops : Stops level rest)
    (otherSpelled : Phrase level other otherTree) (front : other <+: tokens) :
    other.length ≤ phrase.length := by
  obtain ⟨tail, whole⟩ := front
  rcases List.append_eq_append_iff.1 (whole.trans split) with ⟨gap, rfl, _⟩ | ⟨gap, rfl, behind⟩
  · -- The other phrase ends inside this one.
    simp
  · cases gap with
    | nil => simp
    | cons token gap =>
      -- The other phrase goes on where this one has a complete operand.
      -- Behind the phrase no operand is wanted, so that only an operator can come next.
      have walked : Place.start.walk phrase = some Place.finish := spelled.walk 0
      have onward : Place.start.walk (phrase ++ token :: gap) = some Place.finish :=
        otherSpelled.walk 0
      rw [Place.walk_append, walked, Option.bind_some, Place.walk_cons] at onward
      obtain ⟨place, moved, _⟩ := Option.bind_eq_some_iff.1 onward
      cases Place.moves_of_next? moved with
      | operator spells =>
        have tight := otherSpelled.level_le_operator rfl walked spells
        exact absurd tight (stops token (behind ▸ rfl) _ spells)

section Current

variable {ending : Except CompileError UInt32} {room : Nat}

/-- The next token, or the end, has been scanned without a fault. -/
def Scanned (ending : Except CompileError UInt32) (rest : List Token) : Prop :=
  ∃ line, nextLine ending rest = .ok line

/-- A chain stops at a token that it has looked at. -/
theorem chain_scanned {level : Level}
    (partScanned : ∀ level tokens chunk result,
      partWithin ending room level tokens chunk = .ok result → Scanned ending result.rest)
    {bound : Nat} {tokens : List Token} {chunk : Chunk} {short : tokens.length < bound}
    {result : Compiled bound} (scanned : Scanned ending tokens)
    (built : chain ending (partWithin ending room) level tokens chunk short = .ok result) :
    Scanned ending result.rest := by
  -- Behind each right operand, the next token has been looked at again.
  induction size : tokens.length using Nat.strongRecOn generalizing tokens chunk
  rename_i ih
  subst size
  rcases stops_or_operator level tokens with stops | ⟨token, tail, op, rfl, spells, looser⟩
  · -- The chain takes nothing, and has looked at the next token before.
    rw [chain_stop stops] at built
    cases built
    exact scanned
  · -- The right operand has looked at what is behind it.
    rw [chain_operator spells looser] at built
    obtain ⟨_, _, built⟩ := bind_eq_ok_iff.1 built
    obtain ⟨right, rightBuilt, built⟩ := bind_eq_ok_iff.1 built
    exact ih _ (Nat.lt_succ_of_lt right.shorter) (partScanned _ _ _ _ rightBuilt) built rfl

/-- Behind a closing parenthesis, the next token has been looked at. -/
theorem closing_scanned {tokens : List Token} {chunk : Chunk} {bound : Nat}
    {short : tokens.length < bound} {result : Compiled bound}
    (built : closing ending tokens chunk short = .ok result) : Scanned ending result.rest := by
  obtain ⟨closer, rfl, closes, _⟩ := closing_eq_ok built
  -- The parenthesis is taken together with the look.
  rw [closing_rightParen closes] at built
  obtain ⟨line, looked, built⟩ := bind_eq_ok_iff.1 built
  exact ⟨line, looked⟩

/-- Behind an operand, the next token has been looked at. -/
theorem operand_scanned
    (partScanned : ∀ level tokens chunk result,
      partWithin ending room level tokens chunk = .ok result → Scanned ending result.rest)
    {tokens : List Token} {chunk : Chunk} {result : Compiled tokens.length}
    (built : operand ending (partWithin ending room) tokens chunk = .ok result) :
    Scanned ending result.rest := by
  -- A literal and a closing parenthesis are taken together with a look behind them.
  cases tokens with
  | nil =>
    obtain ⟨_, _, impossible⟩ := bind_eq_ok_iff.1 built
    cases impossible
  | cons token rest =>
    by_cases number : token.kind = .number
    -- The literal is taken together with the look.
    · rw [operand_number number] at built
      obtain ⟨line, looked, built⟩ := bind_eq_ok_iff.1 built
      split at built <;> cases built
      exact ⟨line, looked⟩
    by_cases leftParen : token.kind = .leftParen
    -- The closing parenthesis looks at what is behind it.
    · rw [operand_leftParen leftParen] at built
      obtain ⟨_, _, built⟩ := bind_eq_ok_iff.1 built
      obtain ⟨inside, _, built⟩ := bind_eq_ok_iff.1 built
      exact closing_scanned built
    by_cases minus : token.kind = .minus
    -- The operand of the sign is a part, which has looked.
    · rw [operand_minus minus] at built
      obtain ⟨_, _, built⟩ := bind_eq_ok_iff.1 built
      obtain ⟨negated, negatedBuilt, built⟩ := bind_eq_ok_iff.1 built
      cases built
      have behind := partScanned _ _ _ _ negatedBuilt
      exact behind
    · rw [operand_misplaced number leftParen minus] at built
      obtain ⟨_, _, impossible⟩ := bind_eq_ok_iff.1 built
      cases impossible

/-- Behind a part, the next token has been looked at, whatever its level. -/
theorem partWithin_scanned (ending : Except CompileError UInt32) (room : Nat) :
    ∀ level tokens chunk result,
      partWithin ending room level tokens chunk = .ok result → Scanned ending result.rest := by
  -- The parts inside a part have one level less to open.
  induction room with
  | zero =>
    intro level tokens chunk result built
    rw [partWithin_zero] at built
    obtain ⟨_, _, impossible⟩ := bind_eq_ok_iff.1 built
    cases impossible
  | succ room ih =>
    intro level tokens chunk result built
    rw [partWithin_succ] at built
    obtain ⟨left, leftBuilt, built⟩ := bind_eq_ok_iff.1 built
    exact chain_scanned ih (operand_scanned ih leftBuilt) built

end Current

/-- A part has taken a phrase off the front of some tokens, and added its code to a chunk. -/
structure Consumes (ending : Except CompileError UInt32) (level : Level) (tokens : List Token)
    (chunk : Chunk) (phrase : List Token) (tree : Expression) (rest : List Token)
    (written : Chunk) : Prop where
  /-- The phrase stands at the front of the tokens, and the rest is left. -/
  split : tokens = phrase ++ rest
  /-- The phrase spells the expression at the level. -/
  spelled : Phrase level phrase tree
  /-- No phrase of the level at the front of the tokens is longer. -/
  longest : ∀ other otherTree, other <+: tokens → Phrase level other otherTree →
    other.length ≤ phrase.length
  /-- What comes next has been scanned. -/
  scanned : Scanned ending rest
  /-- What comes next is no operator, or one that is looser than the level. -/
  stops : Stops level rest
  /-- The code, the lines and the constants of the expression follow those that were there. -/
  appended : chunk.Appends (tree.code chunk.constants.size) tree.values written
  /-- The code has one load more than it has operators. -/
  loads : Placed.loads (tree.code chunk.constants.size) =
    Placed.operators (tree.code chunk.constants.size) + 1
  /-- The code does not return. -/
  goesOn : ∀ placed ∈ tree.code chunk.constants.size, placed.instruction ≠ .ret

/-- A part that succeeds has taken the longest phrase of its level, and nothing more. -/
theorem partWithin_consumes {ending : Except CompileError UInt32} {room : Nat} {level : Level}
    {tokens : List Token} {chunk : Chunk} {result : Compiled tokens.length}
    (built : partWithin ending room level tokens chunk = .ok result) :
    ∃ phrase tree, Consumes ending level tokens chunk phrase tree result.rest result.chunk := by
  -- The phrase is the one that the part has read.
  obtain ⟨phrase, tree, read, stops⟩ := partWithin_reads _ _ _ _ _ _ built
  exact ⟨phrase, tree, {
    split := read.split
    spelled := read.spelled
    longest := fun _ _ front otherSpelled =>
      length_le_of_stops read.spelled read.split stops otherSpelled front
    scanned := partWithin_scanned _ _ _ _ _ _ built
    stops
    appended := read.code ▸ chunk.writeExpression_appends tree
    loads := tree.loads_code _
    goesOn := fun _ => Expression.ne_ret_of_mem_code }⟩

/--
Wherever a part succeeds, it has taken the longest phrase of its level, given its levels back to
the counter and only added the code of the phrase.

No text has more than 255 parts active at once, whether it is compiled or refused.
-/
theorem countedPart_consumes :
    (∀ ending level tokens chunk before,
      let ended := (countedPart ending level tokens chunk).runFrom before
      ended.1 = partWithin ending (maxNesting - before.depth) level tokens chunk ∧
        ∀ result, ended.1 = .ok result → ended.2.depth = before.depth ∧
          ∃ phrase tree, Consumes ending level tokens chunk phrase tree result.rest result.chunk) ∧
    ∀ source, ((countedCompile source).runFrom {}).1 = compile source ∧
      ((countedCompile source).runFrom {}).2.peak ≤ 255 := by
  constructor
  · -- The counter changes nothing, so that the part is the one without it.
    intro ending level tokens chunk before
    have kept := (countedPart_agrees ending _ level tokens chunk).keeps before rfl
    refine ⟨kept.result, fun result built => ?_⟩
    have plain := kept.result.symm.trans built
    exact ⟨kept.depth result plain, partWithin_consumes plain⟩
  · -- The whole text starts with the counter at zero.
    intro source
    have kept := (countedCompile_agrees source).keeps {} rfl
    have within := kept.peak
    simp only [maxNesting] at within
    exact ⟨kept.result, by omega⟩

/-- Inside a sum, a product takes its two factors, and leaves the next operator of the sum. -/
theorem countedPart_consumes_product :
    let one : Token := ⟨.number, "1", 1⟩
    let star : Token := ⟨.star, "*", 1⟩
    let sign : Token := ⟨.minus, "-", 1⟩
    let plus : Token := ⟨.plus, "+", 1⟩
    let tokens := [one, star, sign, one, plus, one]
    let ended := (countedPart (.ok 1) .product tokens .empty).runFrom ⟨7, 7, 9⟩
    ∃ result, ended.1 = .ok result ∧ result.rest = [plus, one] ∧ ended.2.depth = 7 ∧
      ∃ phrase tree, Consumes (.ok 1) .product tokens .empty phrase tree result.rest
        result.chunk := by
  intro one star sign plus tokens ended
  -- The product ends in front of the sum.
  have multiplies : star.kind.binaryOp? = some .multiply := rfl
  have spelled : Phrase .product [one, star, sign, one] _ :=
    .chain multiplies rfl (.factor (.number rfl)) (.negate rfl (.number rfl))
  have stops : Stops .product [plus, one] := by
    rintro token ⟨⟩ op ⟨⟩
    decide
  obtain ⟨same, finished⟩ := countedPart_consumes.1 (.ok 1) .product tokens .empty ⟨7, 7, 9⟩
  -- Of all the levels, 248 are left.
  have parsed : partWithin (.ok 1) (247 + 1) .product tokens .empty = _ :=
    partWithin_phrase spelled (Level.le_refl _) stops.follows rfl (by decide) (by decide)
      (by decide)
  rw [chain_stop stops] at parsed
  have built := same.trans parsed
  exact ⟨_, built, rfl, finished _ built⟩

/-- Where a text is refused, its parts come back without giving their levels up. -/
example :
    let tokens : List Token := [⟨.leftParen, "(", 1⟩, ⟨.minus, "-", 1⟩]
    ((countedPart (.ok 1) .sum tokens .empty).runFrom {}).2 = ⟨3, 0, 3⟩ := by
  decide +kernel

end Compile

end ByteCalc
