import ByteCalc.Proofs.Expression.Grammar

/-! Positions in an expression tell which tokens can go on to a sentence of the grammar. -/

namespace ByteCalc

/-- A position between the tokens of an expression. -/
structure Place where
  /-- The number of parentheses that are open. -/
  opened : Nat
  /-- Whether an operand has to come next. -/
  wantsOperand : Bool
deriving DecidableEq, Repr

namespace Place

/-- The position before the first token. -/
def start : Place := ⟨0, true⟩

/-- The position behind the last token of a sentence. -/
def finish : Place := ⟨0, false⟩

/-- The position behind one more token, if a token of its kind can stand at this position. -/
def next? : Place → TokenKind → Option Place
  | ⟨opened, true⟩, .number => some ⟨opened, false⟩
  | ⟨opened, true⟩, .leftParen => some ⟨opened + 1, true⟩
  | ⟨opened, true⟩, .minus => some ⟨opened, true⟩
  | ⟨_, true⟩, _ => none
  | ⟨opened + 1, false⟩, .rightParen => some ⟨opened, false⟩
  | ⟨opened, false⟩, kind => kind.binaryOp?.map fun _ => ⟨opened, true⟩

/-- The position behind some more tokens, if each can stand where it does. -/
def walk (place : Place) (tokens : List Token) : Option Place :=
  tokens.foldlM (fun place token => place.next? token.kind) place

/-- The first token is tried at the position itself, and the rest from behind it. -/
theorem walk_cons (place : Place) (token : Token) (rest : List Token) :
    place.walk (token :: rest) = (place.next? token.kind).bind (·.walk rest) :=
  List.foldlM_cons

/-- A walk can be interrupted anywhere. -/
theorem walk_append (place : Place) (before after : List Token) :
    place.walk (before ++ after) = (place.walk before).bind (·.walk after) :=
  List.foldlM_append

/-- An operator can stand behind every operand. -/
theorem next?_operator {kind : TokenKind} {op : BinaryOp} (spells : kind.binaryOp? = some op)
    (opened : Nat) : next? ⟨opened, false⟩ kind = some ⟨opened, true⟩ := by
  -- No operator is a parenthesis, so the count of open ones plays no part.
  cases kind <;> cases spells <;> cases opened <;> rfl

/-- The ways in which a token can lead from one position to the next. -/
inductive Moves : Place → TokenKind → Place → Prop where
  -- The first three are for an operand that is wanted, the other two for one that has ended.
  | number {opened : Nat} : Moves ⟨opened, true⟩ .number ⟨opened, false⟩
  | leftParen {opened : Nat} : Moves ⟨opened, true⟩ .leftParen ⟨opened + 1, true⟩
  | minus {opened : Nat} : Moves ⟨opened, true⟩ .minus ⟨opened, true⟩
  | rightParen {opened : Nat} : Moves ⟨opened + 1, false⟩ .rightParen ⟨opened, false⟩
  | operator {opened : Nat} {kind : TokenKind} {op : BinaryOp} (spells : kind.binaryOp? = some op) :
    Moves ⟨opened, false⟩ kind ⟨opened, true⟩

/-- A token leads on only in one of these ways. -/
theorem moves_of_next? {place later : Place} {kind : TokenKind}
    (moved : place.next? kind = some later) : Moves place kind later := by
  -- The branches of the function are the ways, and one that refuses.
  unfold next? at moved
  split at moved
  · cases moved; exact .number
  · cases moved; exact .leftParen
  · cases moved; exact .minus
  · cases moved
  · cases moved; exact .rightParen
  · obtain ⟨op, spells, rfl⟩ := Option.map_eq_some_iff.1 moved
    exact .operator spells

end Place

/-- A phrase leads from where an operand has to come to where one has ended. -/
theorem Phrase.walk {level : Level} {tokens : List Token} {tree : Expression}
    (spelled : Phrase level tokens tree) (opened : Nat) :
    Place.walk ⟨opened, true⟩ tokens = some ⟨opened, false⟩ := by
  -- Inside a grouping one more parenthesis is open, whatever the number was before.
  induction spelled generalizing opened with
  | @number literal kind => rw [Place.walk_cons, kind]; rfl
  | @group opening closing tokens inside opens spelled closes ih =>
    rw [Place.walk_cons, opens]
    -- The opening parenthesis is counted before the sum is read, and uncounted behind it.
    show Place.walk ⟨opened + 1, true⟩ (tokens ++ [closing]) = _
    rw [Place.walk_append, ih, Option.bind_some, Place.walk_cons, closes]
    rfl
  | @negate sign tokens operand kind spelled ih =>
    -- A sign leaves an operand wanted.
    rw [Place.walk_cons, kind]
    exact ih opened
  | factor spelled ih | term spelled ih => exact ih opened
  | @chain level operator op before after left right spells same leftSpelled rightSpelled leftIh
      rightIh =>
    -- The operator wants an operand again, which the right phrase is.
    rw [Place.walk_append, leftIh, Option.bind_some, Place.walk_cons, Place.next?_operator spells]
    exact rightIh opened

/-- An operator and one more factor continue a phrase, unless all its operators are tighter. -/
theorem Phrase.extend {level : Level} {before after : List Token} {left right : Expression}
    {operator : Token} {op : BinaryOp} (spelled : Phrase level before left)
    (spells : operator.kind.binaryOp? = some op) (loose : level ≤ op.level)
    (factor : Phrase .unary after right) : ∃ tree, Phrase level (before ++ operator :: after) tree := by
  -- Only a chain of the level of the operator can take it up, and that is found from the right.
  have rightSpelled := factor.loosen (Level.le_unary op.rightLevel)
  induction spelled with
  -- A unary phrase is no chain, so no operator is as tight.
  | number | group | negate => exact absurd loose op.not_unary_le_level
  | factor spelled _ =>
    -- One factor is a product, which may become the left operand.
    have same := Level.le_antisymm op.level_le_product loose
    exact ⟨_, .chain spells same (.factor spelled) rightSpelled⟩
  | term spelled ih =>
    by_cases ends : op.level ≤ .sum
    · have same := Level.le_antisymm ends loose
      exact ⟨_, .chain spells same (.term spelled) rightSpelled⟩
    · -- A tighter operator continues the last product.
      obtain ⟨tree, extended⟩ := ih (BinaryOp.rightLevel_le_level .add ends)
      exact ⟨tree, .term extended⟩
  | @chain level _ other before after _ _ otherSpells otherSame leftSpelled lastSpelled _ ih =>
    subst otherSame
    by_cases ends : op.level ≤ other.level
    · have same := Level.le_antisymm ends loose
      exact ⟨_, .chain spells same (.chain otherSpells rfl leftSpelled lastSpelled) rightSpelled⟩
    · -- A tighter operator continues the last right operand.
      obtain ⟨tree, extended⟩ := ih (other.rightLevel_le_level ends)
      exact ⟨_, by simpa using Phrase.chain otherSpells rfl leftSpelled extended⟩

/--
The tokens are a sentence but for so many closing parentheses.

Behind each parenthesis that is open stands a sum, and in front of it an operand can stand.
-/
def Unclosed : Nat → List Token → Prop
  | 0, tokens => ∃ tree, Sentence tokens tree
  | opened + 1, tokens => ∃ outer opening inner tree,
    tokens = outer ++ opening :: inner ∧ opening.kind = .leftParen ∧ Sentence inner tree ∧
      ∀ unary operand, Phrase .unary unary operand → Unclosed opened (outer ++ unary)

/-- An operand makes the tokens a sentence but for so many closing parentheses. -/
def AwaitsOperand (opened : Nat) (tokens : List Token) : Prop :=
  ∀ unary operand, Phrase .unary unary operand → Unclosed opened (tokens ++ unary)

namespace AwaitsOperand

variable {opened : Nat} {tokens : List Token} {token : Token}

/-- Before the first token, a single operand would be a sentence. -/
theorem nil : AwaitsOperand 0 [] :=
  fun _ operand spelled => ⟨operand, .term (.factor spelled)⟩

/-- A literal is the operand that was awaited. -/
theorem number (awaits : AwaitsOperand opened tokens) (kind : token.kind = .number) :
    Unclosed opened (tokens ++ [token]) :=
  awaits _ _ (.number kind)

/-- A sign awaits the operand that it negates. -/
theorem minus (awaits : AwaitsOperand opened tokens) (kind : token.kind = .minus) :
    AwaitsOperand opened (tokens ++ [token]) := by
  -- The sign and the operand behind it are an operand together.
  intro unary operand spelled
  simpa using awaits _ _ (.negate kind spelled)

/-- An opening parenthesis awaits an operand inside, and leaves one level more to close. -/
theorem leftParen (awaits : AwaitsOperand opened tokens) (kind : token.kind = .leftParen) :
    AwaitsOperand (opened + 1) (tokens ++ [token]) := by
  -- The operand is the sum behind the parenthesis.
  intro unary operand spelled
  exact ⟨tokens, token, unary, operand, by simp, kind, .term (.factor spelled), awaits⟩

end AwaitsOperand

namespace Unclosed

variable {opened : Nat} {tokens : List Token} {token : Token}

/-- A closing parenthesis completes the innermost grouping. -/
theorem rightParen (unclosed : Unclosed (opened + 1) tokens) (kind : token.kind = .rightParen) :
    Unclosed opened (tokens ++ [token]) := by
  -- The innermost grouping is complete, and stands where an operand can stand.
  obtain ⟨outer, opening, inner, tree, rfl, opens, spelled, awaits⟩ := unclosed
  simpa using awaits _ _ (.group opens spelled kind)

/-- An operator awaits its right operand, whatever has been read on its left. -/
theorem operator {op : BinaryOp} (unclosed : Unclosed opened tokens)
    (spells : token.kind.binaryOp? = some op) : AwaitsOperand opened (tokens ++ [token]) := by
  -- The operator and the operand behind it continue the innermost sum.
  intro unary operand factor
  cases opened with
  | zero =>
    -- With nothing open, the tokens are the sum itself.
    obtain ⟨tree, spelled⟩ := unclosed
    simpa [Unclosed] using spelled.extend spells (Level.sum_le _) factor
  | succ opened =>
    obtain ⟨outer, opening, inner, tree, rfl, opens, spelled, awaits⟩ := unclosed
    -- The parenthesis in front of the innermost sum is left alone.
    obtain ⟨longer, extended⟩ := spelled.extend spells (Level.sum_le _) factor
    exact ⟨outer, opening, inner ++ token :: unary, longer, by simp, opens, extended, awaits⟩

end Unclosed

namespace Place

/-- What the tokens in front of a position are. -/
def Behind (place : Place) (tokens : List Token) : Prop :=
  if place.wantsOperand then AwaitsOperand place.opened tokens else Unclosed place.opened tokens

/-- A token that can stand at a position leads to the position behind it. -/
theorem Behind.next {place later : Place} {tokens : List Token} {token : Token}
    (behind : place.Behind tokens) (moved : place.next? token.kind = some later) :
    later.Behind (tokens ++ [token]) := by
  -- There is one case for each way in which a token can lead on.
  generalize same : token.kind = kind at moved
  cases moves_of_next? moved with
  | number => exact AwaitsOperand.number behind same
  | leftParen => exact AwaitsOperand.leftParen behind same
  | minus => exact AwaitsOperand.minus behind same
  | rightParen => exact Unclosed.rightParen behind same
  | operator spells => exact Unclosed.operator behind (same ▸ spells)

/-- Tokens that lead from one position to another go on behind those in front of the first. -/
theorem Behind.walk {place later : Place} {before tokens : List Token}
    (behind : place.Behind before) (walked : place.walk tokens = some later) :
    later.Behind (before ++ tokens) := by
  -- The positions on the way are those between the tokens.
  induction tokens generalizing place before with
  | nil =>
    cases walked
    simpa using behind
  | cons token rest ih =>
    rw [walk_cons] at walked
    obtain ⟨middle, moved, walked⟩ := Option.bind_eq_some_iff.1 walked
    simpa using ih (behind.next moved) walked

end Place

/-- The tokens of a sentence are those that lead from the first position to the last. -/
theorem exists_sentence_iff {tokens : List Token} :
    (∃ tree, Sentence tokens tree) ↔ Place.start.walk tokens = some Place.finish := by
  -- A phrase leads to the last position, and a walk to it leaves no parenthesis open.
  constructor
  · -- The walk of a whole sum starts with nothing open.
    rintro ⟨tree, spelled⟩
    exact spelled.walk 0
  · -- Behind the last position, nothing is open and no operand is wanted.
    intro walked
    exact Place.Behind.walk (show Place.start.Behind [] from .nil) walked

/-- The tokens can go on to a sentence of the grammar. -/
def Viable (tokens : List Token) : Prop :=
  ∃ rest tree, Sentence (tokens ++ rest) tree

/-- A token that an operand begins with. -/
def Token.BeginsOperand (token : Token) : Prop :=
  token.kind = .number ∨ token.kind = .leftParen ∨ token.kind = .minus

/-- Wherever the tokens go on to a sentence, they go on with an operand. -/
def RequiresOperand (tokens : List Token) : Prop :=
  ∀ rest tree, Sentence (tokens ++ rest) tree → ∃ token ∈ rest.head?, token.BeginsOperand

/-- More parentheses are opened than closed by the tokens. -/
def LeavesOpen (tokens : List Token) : Prop :=
  tokens.countP (·.kind = .rightParen) < tokens.countP (·.kind = .leftParen)

namespace Place

/-- Tokens that complete a sentence from a position. -/
def completion (place : Place) : List Token :=
  (if place.wantsOperand then [⟨.number, "0", 1⟩] else []) ++
    List.replicate place.opened ⟨.rightParen, ")", 1⟩

/-- From every position, the tokens that complete it lead to the end of a sentence. -/
theorem walk_completion (place : Place) : place.walk place.completion = some finish := by
  -- Behind the operand, if one is wanted, each parenthesis is closed.
  have closed (opened : Nat) :
      walk ⟨opened, false⟩ (List.replicate opened ⟨.rightParen, ")", 1⟩) = some finish := by
    induction opened with
    | zero => rfl
    | succ opened ih => rw [List.replicate_succ, walk_cons]; exact ih
  obtain ⟨opened, _ | _⟩ := place
  · -- No operand is wanted, so only parentheses are left.
    exact closed opened
  · -- The operand takes one move, and leaves the same parentheses open.
    exact closed opened

/-- Tokens that lead anywhere can be completed to a sentence. -/
theorem exists_sentence_completion {place : Place} {tokens : List Token}
    (walked : start.walk tokens = some place) :
    ∃ tree, Sentence (tokens ++ place.completion) tree := by
  rw [exists_sentence_iff, walk_append, walked]
  exact place.walk_completion

/-- Only a token that begins an operand can stand where one is wanted. -/
theorem beginsOperand_of_next? {place later : Place} {token : Token}
    (moved : place.next? token.kind = some later) (wants : place.wantsOperand = true) :
    token.BeginsOperand := by
  -- Behind an operand, neither of the other two ways is left.
  generalize same : token.kind = kind at moved
  cases moves_of_next? moved with
  | number => exact .inl same
  | leftParen => exact .inr (.inl same)
  | minus => exact .inr (.inr same)
  | rightParen | operator => cases wants

/-- The parentheses that a walk opens are open behind it, or closed on the way. -/
theorem opened_walk {place later : Place} {tokens : List Token}
    (walked : place.walk tokens = some later) :
    later.opened + tokens.countP (·.kind = .rightParen) =
      place.opened + tokens.countP (·.kind = .leftParen) := by
  -- No other token changes either side.
  induction tokens generalizing place with
  | nil => cases walked; rfl
  | cons token rest ih =>
    rw [walk_cons] at walked
    obtain ⟨middle, moved, walked⟩ := Option.bind_eq_some_iff.1 walked
    have counted := ih walked
    generalize same : token.kind = kind at moved
    cases moves_of_next? moved with
    | number | leftParen | minus | rightParen =>
      -- These four are told apart by their kinds, and change one count each at most.
      simp only [List.countP_cons, same] at counted ⊢
      simp at counted ⊢
      omega
    | operator spells =>
      -- An operator is no parenthesis, so both counts stay.
      have notLeft : kind ≠ .leftParen := by rintro rfl; cases spells
      have notRight : kind ≠ .rightParen := by rintro rfl; cases spells
      simpa [List.countP_cons, same, notLeft, notRight] using counted

end Place

/-- Tokens can go on to a sentence if each can stand where it does. -/
theorem viable_iff {tokens : List Token} :
    Viable tokens ↔ ∃ place, Place.start.walk tokens = some place := by
  -- A walk along a sentence passes all its fronts, and each front can be completed.
  constructor
  · -- A sentence is walked in full, and so are the tokens in front.
    rintro ⟨rest, spelled⟩
    rw [exists_sentence_iff, Place.walk_append] at spelled
    obtain ⟨place, walked, _⟩ := Option.bind_eq_some_iff.1 spelled
    exact ⟨place, walked⟩
  · -- From the position reached, a completion makes the sentence.
    rintro ⟨place, walked⟩
    exact ⟨place.completion, Place.exists_sentence_completion walked⟩

/-- An operand is required where the position behind the tokens wants one. -/
theorem requiresOperand_iff {tokens : List Token} {place : Place}
    (walked : Place.start.walk tokens = some place) :
    RequiresOperand tokens ↔ place.wantsOperand = true := by
  constructor
  · -- A position that wants no operand is completed without one.
    intro required
    obtain ⟨tree, spelled⟩ := Place.exists_sentence_completion walked
    obtain ⟨token, first, begins⟩ := required _ _ spelled
    obtain ⟨opened, _ | _⟩ := place
    · -- Nothing but a closing parenthesis starts the completion, and that begins no operand.
      obtain ⟨_, rfl⟩ : opened ≠ 0 ∧ ⟨.rightParen, ")", 1⟩ = token := by
        simpa [Place.completion, List.head?_replicate, Option.ite_none_left_eq_some] using first
      simp [Token.BeginsOperand] at begins
    · rfl
  · -- A sentence moves on from the position, which only an operand does.
    intro wants rest tree spelled
    have whole := spelled.walk 0
    rw [show Place.mk 0 true = Place.start from rfl, Place.walk_append, walked] at whole
    cases rest with
    | nil =>
      -- A sentence that ends here leaves no operand wanted.
      cases whole
      cases wants
    | cons token rest =>
      rw [Option.bind_some, Place.walk_cons] at whole
      obtain ⟨later, moved, _⟩ := Option.bind_eq_some_iff.1 whole
      -- The token behind has a move, and it must be one of an operand.
      exact ⟨token, rfl, Place.beginsOperand_of_next? moved wants⟩

/-- A parenthesis is left open if the position behind the tokens counts one. -/
theorem leavesOpen_iff {tokens : List Token} {place : Place}
    (walked : Place.start.walk tokens = some place) : LeavesOpen tokens ↔ 0 < place.opened := by
  -- Each opening parenthesis adds to the count, and each closing one takes from it.
  have counted := Place.opened_walk walked
  simp only [Place.start] at counted
  unfold LeavesOpen
  omega

end ByteCalc
