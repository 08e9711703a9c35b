import ByteCalc.Proofs.Compile.Acceptance

/-! A compilation fails at the first token that cannot stand where it does, or at a limit. -/

namespace ByteCalc

/-- What a position asks for in the place of a token that is no operator. -/
def Place.wanted (place : Place) : String :=
  if place.opened = 0 then "Expect end of expression." else "Expect ')' after expression."

/-- The fault of a text that cannot go on at a position, with what is found there. -/
def Place.fault (place : Place) (unsupported : Bool) (found : String) : CompileFault :=
  if place.wantsOperand then
    if unsupported then .unsupported found else .expectedExpression found
  else .expectedToken place.wanted found

namespace Compile

/-- The errors with which some tokens, and what comes behind them, can be refused. -/
inductive Reports (ending : Except CompileError UInt32) (all : List Token) : CompileError → Prop where
  /-- A token cannot stand where it does, while all before it can. -/
  | token {before after : List Token} {token : Token} {place : Place}
      (split : all = before ++ token :: after) (walked : Place.start.walk before = some place)
      (stuck : place.next? token.kind = none) :
      Reports ending all ⟨place.fault token.kind.beginsUnsupported token.lexeme, token.line⟩
  /-- The text ends too early. -/
  | finish {place : Place} {line : UInt32} (walked : Place.start.walk all = some place)
      (unfinished : place ≠ .finish) (ended : ending = .ok line) :
      Reports ending all ⟨place.fault false "end", line⟩
  /-- There is a fault in the text behind tokens that can stand where they do. -/
  | fault {place : Place} {error : CompileError} (walked : Place.start.walk all = some place)
      (ended : ending = .error error) : Reports ending all error
  /-- There is a fault in the text right behind any token in the place of an operand. -/
  | faultBehind {before : List Token} {token : Token} {place : Place} {error : CompileError}
      (split : all = before ++ [token]) (walked : Place.start.walk before = some place)
      (wants : place.wantsOperand = true) (ended : ending = .error error) :
      Reports ending all error
  /-- Too many levels are open. -/
  | tooDeep (line : UInt32) : Reports ending all ⟨.tooDeep, line⟩
  /-- The pool takes no more literals. -/
  | pool (error : ChunkError) (line : UInt32) : Reports ending all ⟨.chunk error, line⟩

/-- A look at the next token fails only for the fault of a text without one. -/
theorem nextLine_eq_error {ending : Except CompileError UInt32} {tokens : List Token}
    {error : CompileError} (looked : nextLine ending tokens = .error error) :
    tokens = [] ∧ ending = .error error := by
  -- A token that is there has a line, so that only the end can fail.
  cases tokens with
  | nil => exact ⟨rfl, looked⟩
  | cons => cases looked

section Errors

variable {ending : Except CompileError UInt32} {all before tokens : List Token} {opened : Nat}
  {error : CompileError}

/-- A fault that the next look meets lies behind all of the tokens. -/
theorem nextLine_reports {place : Place} (split : all = before ++ tokens)
    (walked : Place.start.walk before = some place)
    (looked : nextLine ending tokens = .error error) : Reports ending all error := by
  -- The place is the one behind all tokens.
  obtain ⟨rfl, ended⟩ := nextLine_eq_error looked
  rw [List.append_nil] at split
  exact .fault (split ▸ walked) ended

/-- Behind an operand, neither an operator nor a parenthesis to close is missing. -/
theorem next?_eq_none {token : Token} {rest : List Token} (stops : Stops .sum (token :: rest))
    (other : opened = 0 ∨ token.kind ≠ .rightParen) :
    Place.next? ⟨opened, false⟩ token.kind = none := by
  -- Every operator continues a sum.
  have none : token.kind.binaryOp? = none :=
    Option.eq_none_iff_forall_ne_some.2 fun op spells => stops token rfl op spells op.level.sum_le
  cases opened with
  -- Outside of all groupings, a parenthesis is out of place as well.
  | zero => simp only [Place.next?, none, Option.map_none]
  -- Inside a grouping, only an operator and a closing parenthesis lead on.
  | succ opened =>
    unfold Place.next?
    split
    all_goals simp_all

/-- Another token than the one that is wanted is refused, and so is the end. -/
theorem unexpected_reports {α : Type} {place : Place} (split : all = before ++ tokens)
    (walked : Place.start.walk before = some place) (complete : place.wantsOperand = false)
    (unfinished : tokens = [] → place ≠ .finish)
    (stuck : ∀ token ∈ tokens.head?, place.next? token.kind = none)
    (failed : (unexpected ending place.wanted tokens : Except CompileError α) = .error error) :
    Reports ending all error := by
  -- At the end, a fault of the text comes before the error.
  cases tokens with
  | nil =>
    rw [List.append_nil] at split
    subst split
    rcases bind_eq_error_iff.1 failed with ended | ⟨line, ended, failed⟩
    · -- The end is out of place, unless the text has a fault there.
      exact .fault walked ended
    · cases failed
      have reported := Reports.finish walked (unfinished rfl) ended
      simp only [Place.fault, complete] at reported
      exact reported
  -- The token that is there is the one that is out of place.
  | cons token rest =>
    cases failed
    have reported : Reports ending all
        ⟨place.fault token.kind.beginsUnsupported token.lexeme, token.line⟩ :=
      .token split walked (stuck token rfl)
    simp only [Place.fault, complete] at reported
    exact reported

/-- What a part has to give when it fails, wherever an operand is wanted. -/
def PartReports (ending : Except CompileError UInt32) (all : List Token) (room : Nat) : Prop :=
  ∀ level tokens chunk error before opened, all = before ++ tokens →
    Place.start.walk before = some ⟨opened, true⟩ →
      partWithin ending room level tokens chunk = .error error → Reports ending all error

/-- Behind a phrase, an operand is complete, and as many parentheses are open as before. -/
theorem walk_phrase {level : Level} {phrase : List Token} {tree : Expression}
    (walked : Place.start.walk before = some ⟨opened, true⟩) (spelled : Phrase level phrase tree) :
    Place.start.walk (before ++ phrase) = some ⟨opened, false⟩ := by
  -- A phrase leads from a wanted operand to a complete one.
  rw [Place.walk_append, walked, Option.bind_some, spelled.walk]

/-- The tokens behind a phrase are what is left of all tokens. -/
theorem Reads.split_behind {room : Nat} {level : Level} {chunk written : Chunk}
    {phrase rest : List Token} {tree : Expression}
    (read : Reads room level tokens chunk phrase tree rest written) (split : all = before ++ tokens) :
    all = (before ++ phrase) ++ rest := by
  rw [split, List.append_assoc, ← read.split]

/-- The walk along some tokens goes on over one more. -/
theorem walk_token {place later : Place} {token : Token}
    (walked : Place.start.walk before = some place) (moved : place.next? token.kind = some later) :
    Place.start.walk (before ++ [token]) = some later := by
  rw [Place.walk_append, walked, Option.bind_some, Place.walk_cons, moved]
  rfl

/-- A chain fails in a right operand, or with a fault behind an operator. -/
theorem chain_reports {room : Nat} (partReports : PartReports ending all room) {level : Level}
    {chunk : Chunk} {bound : Nat} {short : tokens.length < bound} (split : all = before ++ tokens)
    (walked : Place.start.walk before = some ⟨opened, false⟩)
    (failed : chain ending (partWithin ending room) level tokens chunk short = .error error) :
    Reports ending all error := by
  -- Each operator and its right operand lead back to a position behind an operand.
  induction size : tokens.length using Nat.strongRecOn generalizing tokens chunk before
  rename_i ih
  subst size
  rcases stops_or_operator level tokens with stops | ⟨token, tail, op, rfl, spells, looser⟩
  · -- A chain that stops does not fail.
    rw [chain_stop stops] at failed
    cases failed
  -- Behind the operator, an operand is wanted again.
  have behind := walk_token walked (Place.next?_operator spells opened)
  have shorter : all = (before ++ [token]) ++ tail := by simp [split]
  rw [chain_operator spells looser] at failed
  rcases bind_eq_error_iff.1 failed with looked | ⟨_, _, failed⟩
  · -- The token behind the operator could not be scanned.
    exact nextLine_reports shorter behind looked
  rcases bind_eq_error_iff.1 failed with onRight | ⟨right, rightBuilt, failed⟩
  · -- The right operand fails, and reports what it has met.
    exact partReports _ _ _ _ _ _ shorter behind onRight
  -- The right operand is read, so that the rest of the chain fails behind it.
  obtain ⟨phrase, tree, read, _⟩ := partWithin_reads _ _ _ _ _ _ rightBuilt
  exact ih _ (Nat.lt_succ_of_lt right.shorter) (read.split_behind shorter)
    (walk_phrase behind read.spelled) failed rfl

/-- A grouping is closed by a parenthesis, or fails with whatever comes in its place. -/
theorem closing_reports {chunk : Chunk} {bound : Nat} {short : tokens.length < bound}
    (split : all = before ++ tokens) (walked : Place.start.walk before = some ⟨opened + 1, false⟩)
    (stops : Stops .sum tokens) (failed : closing ending tokens chunk short = .error error) :
    Reports ending all error := by
  -- The parenthesis leads on, and anything else is refused in its place.
  by_cases other : ∀ token ∈ tokens.head?, token.kind ≠ .rightParen
  · -- Something else comes where the parenthesis should be.
    rw [closing_other other] at failed
    refine unexpected_reports split walked rfl (fun _ => by simp [Place.finish]) ?_ failed
    intro token first
    obtain ⟨rest, rfl⟩ := List.head?_eq_some_iff.1 first
    exact next?_eq_none stops (.inr (other token rfl))
  · -- The parenthesis is there, so that only a fault behind it can be reported.
    obtain ⟨closer, first, closes⟩ : ∃ token ∈ tokens.head?, token.kind = .rightParen := by
      simpa using other
    obtain ⟨rest, rfl⟩ := List.head?_eq_some_iff.1 first
    rw [closing_rightParen closes] at failed
    rcases bind_eq_error_iff.1 failed with looked | ⟨_, _, impossible⟩
    · have moved : Place.next? ⟨opened + 1, false⟩ closer.kind = some ⟨opened, false⟩ := by
        rw [closes]
        rfl
      exact nextLine_reports (by simp [split]) (walk_token walked moved) looked
    · cases impossible

/-- Only a literal, a parenthesis or a sign can stand in the place of an operand. -/
theorem next?_operand_eq_none {token : Token} (number : token.kind ≠ .number)
    (leftParen : token.kind ≠ .leftParen) (minus : token.kind ≠ .minus) :
    Place.next? ⟨opened, true⟩ token.kind = none := by
  -- Only three kinds of tokens begin an operand.
  unfold Place.next?
  split
  all_goals simp_all

/-- A token that begins no operand is blamed by what is needed in its place. -/
theorem misplaced_eq (token : Token) (opened : Nat) :
    misplaced token = ⟨Place.fault ⟨opened, true⟩ token.kind.beginsUnsupported token.lexeme,
      token.line⟩ := by
  -- Both functions tell the unsupported kinds from the others.
  unfold misplaced
  split <;> simp_all [Place.fault]

/-- An operand fails at its first token, inside it, or with the fault behind its first token. -/
theorem operand_reports {room : Nat} (partReports : PartReports ending all room) {chunk : Chunk}
    (split : all = before ++ tokens) (walked : Place.start.walk before = some ⟨opened, true⟩)
    (failed : operand ending (partWithin ending room) tokens chunk = .error error) :
    Reports ending all error := by
  -- A fault behind the first token is found before the token is looked at.
  cases tokens with
  -- The text ends where an operand is wanted.
  | nil =>
    rw [List.append_nil] at split
    subst split
    rcases bind_eq_error_iff.1 failed with ended | ⟨line, ended, failed⟩
    · exact .fault walked ended
    · cases failed
      exact .finish walked (by simp [Place.finish]) ended
  | cons token rest =>
    have looks (looked : nextLine ending rest = .error error) : Reports ending all error := by
      obtain ⟨rfl, ended⟩ := nextLine_eq_error looked
      exact .faultBehind split walked rfl ended
    have shorter : all = (before ++ [token]) ++ rest := by simp [split]
    -- A literal can only be refused by the pool.
    by_cases number : token.kind = .number
    · rw [operand_number number] at failed
      rcases bind_eq_error_iff.1 failed with looked | ⟨_, _, failed⟩
      · exact looks looked
      split at failed <;> cases failed
      exact .pool _ _
    -- A grouping fails inside, or where it should be closed.
    by_cases leftParen : token.kind = .leftParen
    · have behind : Place.start.walk (before ++ [token]) = some ⟨opened + 1, true⟩ :=
        walk_token walked (by rw [leftParen]; rfl)
      rw [operand_leftParen leftParen] at failed
      rcases bind_eq_error_iff.1 failed with looked | ⟨_, _, failed⟩
      · exact looks looked
      rcases bind_eq_error_iff.1 failed with within | ⟨inside, insideBuilt, failed⟩
      · exact partReports _ _ _ _ _ _ shorter behind within
      obtain ⟨phrase, tree, read, stops⟩ := partWithin_reads _ _ _ _ _ _ insideBuilt
      exact closing_reports (read.split_behind shorter) (walk_phrase behind read.spelled) stops
        failed
    by_cases minus : token.kind = .minus
    · have behind : Place.start.walk (before ++ [token]) = some ⟨opened, true⟩ :=
        walk_token walked (by rw [minus]; rfl)
      rw [operand_minus minus] at failed
      rcases bind_eq_error_iff.1 failed with looked | ⟨_, _, failed⟩
      · exact looks looked
      rcases bind_eq_error_iff.1 failed with within | ⟨_, _, impossible⟩
      · exact partReports _ _ _ _ _ _ shorter behind within
      · cases impossible
    · rw [operand_misplaced number leftParen minus] at failed
      rcases bind_eq_error_iff.1 failed with looked | ⟨_, _, failed⟩
      · exact looks looked
      · cases failed
        rw [misplaced_eq token opened]
        exact .token split walked (next?_operand_eq_none number leftParen minus)

/-- A part fails in its first operand or in the chain behind that. -/
theorem partWithin_reports (ending : Except CompileError UInt32) (all : List Token) (room : Nat) :
    PartReports ending all room := by
  -- The parts inside a part have one level less to open.
  induction room with
  | zero =>
    -- Without room, the level that is missing is reported.
    intro level tokens chunk error before opened split walked failed
    rw [partWithin_zero] at failed
    rcases bind_eq_error_iff.1 failed with looked | ⟨line, _, failed⟩
    · exact nextLine_reports split walked looked
    · cases failed
      exact .tooDeep line
  | succ room ih =>
    intro level tokens chunk error before opened split walked failed
    rw [partWithin_succ] at failed
    rcases bind_eq_error_iff.1 failed with inOperand | ⟨left, leftBuilt, failed⟩
    · exact operand_reports ih split walked inOperand
    -- The operand has been read, so that the chain behind it fails.
    obtain ⟨phrase, tree, read⟩ := operand_reads (partWithin_reads ending room) leftBuilt
    exact chain_reports ih (read.split_behind split) (walk_phrase walked read.spelled) failed

end Errors

/-- A text is refused for what comes behind the tokens that can stand where they do. -/
theorem compile_reports {source : String} {error : CompileError}
    (failed : compile source = .error error) :
    Reports (lex source).ending (lex source).tokens error := by
  -- The first look, the sum and what is left behind it are three places to fail at.
  rw [compile_eq] at failed
  rcases bind_eq_error_iff.1 failed with looked | ⟨_, _, failed⟩
  · exact nextLine_reports (List.nil_append _).symm rfl looked
  rcases bind_eq_error_iff.1 failed with inSum | ⟨whole, parsed, failed⟩
  · exact partWithin_reports _ _ _ _ _ _ _ _ _ (List.nil_append _).symm rfl inSum
  obtain ⟨phrase, tree, read, stops⟩ := partWithin_reads _ _ _ _ _ _ parsed
  have walked : Place.start.walk phrase = some .finish := read.spelled.walk 0
  unfold conclude at failed
  split at failed
  next none =>
    -- The tokens are a sentence, so that only the text behind them can be at fault.
    rcases bind_eq_error_iff.1 failed with ended | ⟨_, _, impossible⟩
    · have all : (lex source).tokens = phrase := by rw [read.split, none, List.append_nil]
      exact .fault (all ▸ walked) ended
    · cases impossible
  next some =>
    refine unexpected_reports read.split walked rfl (fun none => absurd none some) ?_ failed
    intro token first
    obtain ⟨rest, extra⟩ := List.head?_eq_some_iff.1 first
    exact next?_eq_none (extra ▸ stops) (.inl rfl)

end Compile

end ByteCalc
