import ByteCalc.Proofs.Expression.Place

/-! No tokens spell two expressions: the operator that is applied last is fixed by the levels. -/

namespace ByteCalc

namespace Place

/-- More open parentheses in front of a walk are still open behind it. -/
theorem walk_deepen {place later : Place} {tokens : List Token}
    (walked : place.walk tokens = some later) (more : Nat) :
    walk ⟨place.opened + more, place.wantsOperand⟩ tokens =
      some ⟨later.opened + more, later.wantsOperand⟩ := by
  -- No move looks at how many parentheses are open, apart from the one that closes the last.
  induction tokens generalizing place with
  -- Nothing moves, so the count is added to one position.
  | nil => cases walked; rfl
  | cons token rest ih =>
    rw [walk_cons] at walked ⊢
    obtain ⟨middle, moved, walked⟩ := Option.bind_eq_some_iff.1 walked
    have deeper : next? ⟨place.opened + more, place.wantsOperand⟩ token.kind =
        some ⟨middle.opened + more, middle.wantsOperand⟩ := by
      generalize token.kind = kind at moved
      cases moves_of_next? moved with
      | number | minus => rfl
      -- The parentheses that were there come after those of the walk.
      | leftParen => simp only [next?, Nat.add_right_comm]
      | rightParen => simp only [next?, Nat.add_right_comm]
      | operator spells => exact next?_operator spells _
    rw [deeper, Option.bind_some]
    exact ih walked

end Place

namespace Phrase

/-- Behind a complete operand, a phrase has no operator that is looser than its level. -/
theorem level_le_operator {level : Level} {tokens before after : List Token} {tree : Expression}
    {operator : Token} {op : BinaryOp} (spelled : Phrase level tokens tree)
    (split : tokens = before ++ operator :: after)
    (walked : Place.start.walk before = some Place.finish)
    (spells : operator.kind.binaryOp? = some op) : level ≤ op.level := by
  induction spelled generalizing before after with
  | @number literal kind =>
    -- In front of the literal there is no operand.
    cases before with
    | nil => cases walked
    | cons first rest => simp at split
  | @group opening closing tokens inside opens spelled closes ih =>
    cases before with
    -- Where no token has been read, no operand is complete.
    | nil => cases walked
    | cons first rest =>
      obtain ⟨rfl, tail⟩ := List.cons.inj split
      rw [Place.walk_cons, opens] at walked
      rcases List.append_eq_append_iff.1 tail with ⟨gap, rfl, last⟩ | ⟨gap, rfl, _⟩
      · -- The only token behind the sum is a parenthesis.
        cases gap with
        | nil =>
          cases last
          simp [closes, TokenKind.binaryOp?] at spells
        | cons => simp at last
      · -- Inside the sum, the opening parenthesis is still open.
        have whole := spelled.walk 0
        rw [Place.walk_append] at whole
        obtain ⟨inner, reached, _⟩ := Option.bind_eq_some_iff.1 whole
        cases walked.symm.trans (Place.walk_deepen reached 1)
  | @negate sign tokens operand kind spelled ih =>
    cases before with
    -- Where no token has been read, no operand is complete.
    | nil => cases walked
    | cons first rest =>
      obtain ⟨rfl, tail⟩ := List.cons.inj split
      rw [Place.walk_cons, kind] at walked
      -- The sign is passed, and the rest is the operand's.
      exact ih tail walked
  -- Taken for a looser phrase, it has a weaker bound to meet.
  | factor spelled ih => exact Level.le_trans (by decide) (ih split walked)
  | term spelled ih => exact Level.le_trans (by decide) (ih split walked)
  | @chain level last lastOp left right _ _ lastSpells same leftSpelled rightSpelled leftIh rightIh =>
    subst same
    rcases List.append_eq_append_iff.1 split with ⟨gap, rfl, rest⟩ | ⟨gap, rfl, rest⟩
    · cases gap with
      | nil =>
        -- The operator is the last one of the chain itself.
        cases rest
        cases spells.symm.trans lastSpells
        exact Level.le_refl _
      | cons first gap =>
        -- The operator stands in the right operand, behind a complete operand of that.
        obtain ⟨rfl, tail⟩ := List.cons.inj rest
        have reached : Place.start.walk left = some Place.finish := leftSpelled.walk 0
        have moved : Place.finish.next? last.kind = some Place.start :=
          Place.next?_operator lastSpells 0
        rw [Place.walk_append, reached, Option.bind_some, Place.walk_cons, moved] at walked
        exact Level.le_trans lastOp.level_le_rightLevel (rightIh tail walked)
    · cases gap with
      -- The split falls behind the left operand, at the last operator again.
      | nil =>
        cases rest
        cases spells.symm.trans lastSpells
        exact Level.le_refl _
      | cons first gap =>
        -- The operator stands in the left operand.
        obtain ⟨rfl, tail⟩ := List.cons.inj rest
        exact leftIh rfl walked

/-- Only an operand behind an operator makes a complete operand of the two. -/
private theorem walk_behind_operator {level level' : Level} {before gap : List Token}
    {left left' : Expression} {operator : Token} {op : BinaryOp}
    (leftSpelled : Phrase level before left) (spells : operator.kind.binaryOp? = some op)
    (longSpelled : Phrase level' (before ++ operator :: gap) left') :
    Place.start.walk gap = some Place.finish := by
  -- The operator leads back to the first position.
  have walked : Place.start.walk (before ++ operator :: gap) = some Place.finish :=
    longSpelled.walk 0
  have reached : Place.start.walk before = some Place.finish := leftSpelled.walk 0
  have moved : Place.finish.next? operator.kind = some Place.start := Place.next?_operator spells 0
  rwa [Place.walk_append, reached, Option.bind_some, Place.walk_cons, moved] at walked

/-- A chain does not end later than at its last operator. -/
private theorem not_longer_chain {level level' : Level} {before gap after : List Token}
    {left left' right : Expression} {operator operator' : Token} {op op' : BinaryOp}
    (leftSpelled : Phrase level before left) (spells : operator.kind.binaryOp? = some op)
    (rightSpelled : Phrase op.rightLevel (gap ++ operator' :: after) right)
    (longSpelled : Phrase level' (before ++ operator :: gap) left')
    (spells' : operator'.kind.binaryOp? = some op') : ¬ op'.level ≤ op.level := by
  -- The later operator stands in the right operand, which is too tight for it.
  intro loose
  have walked := walk_behind_operator leftSpelled spells longSpelled
  have tight := rightSpelled.level_le_operator rfl walked spells'
  exact BinaryOp.not_rightLevel_le (Level.le_refl op.level) (Level.le_trans tight loose)

/-- Two chains of one level that have the same tokens have the same last operator. -/
private theorem same_last {level : Level} {before after before' after' : List Token}
    {left right left' right' : Expression} {operator operator' : Token} {op op' : BinaryOp}
    (same : before ++ operator :: after = before' ++ operator' :: after')
    (spells : operator.kind.binaryOp? = some op) (spells' : operator'.kind.binaryOp? = some op')
    (level_eq : op.level = level) (level_eq' : op'.level = level)
    (leftSpelled : Phrase level before left) (leftSpelled' : Phrase level before' left')
    (rightSpelled : Phrase op.rightLevel after right)
    (rightSpelled' : Phrase op'.rightLevel after' right') :
    before = before' ∧ operator = operator' ∧ after = after' := by
  subst level_eq
  -- Whichever of the two comes first, the other one would be a later end of its chain.
  rcases List.append_eq_append_iff.1 same with ⟨gap, rfl, rest⟩ | ⟨gap, rfl, rest⟩
  · cases gap with
    | nil =>
      obtain ⟨rfl, rfl⟩ := List.cons.inj rest
      exact ⟨by simp, rfl, rfl⟩
    | cons first gap =>
      obtain ⟨rfl, rfl⟩ := List.cons.inj rest
      have loose : op'.level ≤ op.level := level_eq' ▸ Level.le_refl _
      -- The second operator would stand in the right operand of the first.
      exact absurd loose (not_longer_chain leftSpelled spells rightSpelled leftSpelled' spells')
  · cases gap with
    | nil =>
      obtain ⟨rfl, rfl⟩ := List.cons.inj rest
      exact ⟨by simp, rfl, rfl⟩
    | cons first gap =>
      obtain ⟨rfl, rfl⟩ := List.cons.inj rest
      have loose : op.level ≤ op'.level := level_eq' ▸ Level.le_refl _
      -- The first operator would stand in the right operand of the second.
      exact absurd loose (not_longer_chain leftSpelled' spells' rightSpelled' leftSpelled spells)

/-- A phrase with an operator behind a complete operand is a chain. -/
private theorem exists_last {level : Level} {tokens before after : List Token} {tree : Expression}
    {operator : Token} {op : BinaryOp} (spelled : Phrase level tokens tree)
    (split : tokens = before ++ operator :: after)
    (walked : Place.start.walk before = some Place.finish)
    (spells : operator.kind.binaryOp? = some op) :
    ∃ last lastOp left right leftTree rightTree, tokens = left ++ last :: right ∧
      tree = .binary lastOp last leftTree rightTree ∧ last.kind.binaryOp? = some lastOp ∧
      Phrase lastOp.level left leftTree ∧ Phrase lastOp.rightLevel right rightTree := by
  -- The operator is too loose for a phrase that is no chain.
  induction spelled with
  | number kind =>
    -- A unary phrase has no operator behind an operand, of any level.
    exact absurd (level_le_operator (.number kind) split walked spells) op.not_unary_le_level
  | group opens spelled closes =>
    exact absurd (level_le_operator (.group opens spelled closes) split walked spells)
      op.not_unary_le_level
  | negate kind spelled =>
    exact absurd (level_le_operator (.negate kind spelled) split walked spells)
      op.not_unary_le_level
  -- The tokens are the same, so the last operator is too.
  | factor spelled ih | term spelled ih => exact ih split
  | chain lastSpells same leftSpelled rightSpelled =>
    subst same
    exact ⟨_, _, _, _, _, _, rfl, rfl, lastSpells, leftSpelled, rightSpelled⟩

/-- The tokens of a unary phrase are not a chain as well. -/
theorem tighten_unary {level : Level} {tokens : List Token} {tree other : Expression}
    (spelled : Phrase .unary tokens tree) (otherSpelled : Phrase level tokens other) :
    Phrase .unary tokens other := by
  -- A chain has an operator behind a complete operand, where a unary phrase has none.
  induction otherSpelled with
  -- Three of the rules make unary phrases anyway.
  | number kind => exact .number kind
  | group opens inside closes => exact .group opens inside closes
  | negate kind operand => exact .negate kind operand
  | factor factor _ => exact factor
  | term _ ih => exact ih spelled
  | @chain _ _ op _ _ _ _ spells _ leftSpelled _ =>
    -- The operator would be as tight as the phrase, and none is.
    have tight := spelled.level_le_operator rfl (leftSpelled.walk 0) spells
    exact absurd tight op.not_unary_le_level

/-- The first token of a unary phrase tells which of the three kinds it is. -/
theorem unary_cases {first : Token} {rest : List Token} {tree : Expression}
    (spelled : Phrase .unary (first :: rest) tree) :
    (first.kind = .number ∧ tree = .number first) ∨
    (first.kind = .leftParen ∧ ∃ inner closing inside, rest = inner ++ [closing] ∧
      Phrase .sum inner inside ∧ tree = .group inside) ∨
    (first.kind = .minus ∧ ∃ operand, Phrase .unary rest operand ∧
      tree = .negate first operand) := by
  -- The first token tells which of the rules was used.
  generalize whole : first :: rest = all at spelled
  cases spelled with
  | number kind =>
    cases whole
    exact .inl ⟨kind, rfl⟩
  | group opens inner closes =>
    cases whole
    -- The tokens between the two parentheses are the sum.
    exact .inr (.inl ⟨opens, _, _, _, rfl, inner, rfl⟩)
  | negate kind operand =>
    cases whole
    exact .inr (.inr ⟨kind, _, operand, rfl⟩)
  | @chain _ _ op _ _ _ _ _ same => exact absurd same op.level_ne_unary

/-- No tokens spell two expressions, whatever the levels are. -/
theorem unique {level level' : Level} {tokens : List Token} {tree other : Expression}
    (spelled : Phrase level tokens tree) (otherSpelled : Phrase level' tokens other) :
    tree = other := by
  -- A unary phrase is told by its first token, and a chain by its last operator.
  induction spelled generalizing level' other with
  | number kind =>
    rcases unary_cases (tighten_unary (.number kind) otherSpelled) with
      ⟨_, rfl⟩ | ⟨opens, _⟩ | ⟨sign, _⟩
    · rfl
    · cases kind.symm.trans opens
    · cases kind.symm.trans sign
  | group opens inner closes ih =>
    rcases unary_cases (tighten_unary (.group opens inner closes) otherSpelled) with
      ⟨number, _⟩ | ⟨_, _, _, _, same, otherInner, rfl⟩ | ⟨sign, _⟩
    · cases opens.symm.trans number
    · -- The closing parenthesis is one token, so the sums inside have the same tokens.
      obtain ⟨rfl, _⟩ := List.append_inj' same rfl
      rw [ih otherInner]
    · cases opens.symm.trans sign
  | negate kind operand ih =>
    rcases unary_cases (tighten_unary (.negate kind operand) otherSpelled) with
      ⟨number, _⟩ | ⟨opens, _⟩ | ⟨_, _, otherOperand, rfl⟩
    · cases kind.symm.trans number
    · cases kind.symm.trans opens
    · -- The rest of the tokens spell both operands.
      rw [ih otherOperand]
  | factor spelled ih | term spelled ih => exact ih otherSpelled
  | chain spells same leftSpelled rightSpelled leftIh rightIh =>
    subst same
    obtain ⟨last, lastOp, left, right, leftTree, rightTree, split, rfl, lastSpells, leftSpelled',
      rightSpelled'⟩ := exists_last otherSpelled rfl (leftSpelled.walk 0) spells
    -- Each operator stands behind a complete operand, so neither is the tighter one.
    have there := level_le_operator (.chain spells rfl leftSpelled rightSpelled) split
      (leftSpelled'.walk 0) lastSpells
    have back := level_le_operator (.chain lastSpells rfl leftSpelled' rightSpelled') split.symm
      (leftSpelled.walk 0) spells
    have level_eq := Level.le_antisymm back there
    obtain ⟨rfl, rfl, rfl⟩ := same_last split spells lastSpells rfl level_eq leftSpelled
      (level_eq ▸ leftSpelled') rightSpelled rightSpelled'
    -- One token spells one operator, so the operands are all that is left.
    cases spells.symm.trans lastSpells
    rw [leftIh leftSpelled', rightIh rightSpelled']

end Phrase

end ByteCalc
