import ByteCalc.Proofs.Machine.Height

/-! The limit on nesting bounds the stack, and the bound is reached. -/

namespace ByteCalc

section Ladder

/-- The factor of a ladder: a literal, or a shorter ladder in parentheses. -/
def ladderFactor : Nat → List Char
  | 0 => ['1']
  | rungs + 1 => '(' :: '1' :: '+' :: '1' :: '*' :: (ladderFactor rungs ++ [')'])

/-- A sum of one and a product of one and a factor, which may hold more such sums. -/
def ladder (rungs : Nat) : String :=
  String.ofList ('1' :: '+' :: '1' :: '*' :: ladderFactor rungs)

/-- The literal that ladders are made of. -/
private def one : Token := ⟨.number, "1", 1⟩

/-- The sum of each rung. -/
private def plus : Token := ⟨.plus, "+", 1⟩

/-- The product of each rung. -/
private def star : Token := ⟨.star, "*", 1⟩

/-- The parenthesis that opens a rung. -/
private def opening : Token := ⟨.leftParen, "(", 1⟩

/-- The parenthesis that closes a rung. -/
private def closing : Token := ⟨.rightParen, ")", 1⟩

/-- The tokens of the factor of a ladder. -/
def ladderFactorTokens : Nat → List Token
  | 0 => [one]
  | rungs + 1 => opening :: one :: plus :: one :: star :: (ladderFactorTokens rungs ++ [closing])

/-- The tokens of a ladder. -/
def ladderTokens (rungs : Nat) : List Token :=
  one :: plus :: one :: star :: ladderFactorTokens rungs

namespace Scanner

/-- Closing parentheses are scanned one by one, up to the end. -/
private theorem scansFrom_closings (count : Nat) (made : Array Scan) :
    ((Scanner.mk (List.replicate count ')') 1).scansFrom made).1.toList =
      made.toList ++ ((List.replicate count closing).map .token ++ [.finish 1]) := by
  have close (rest : List Char) : next ⟨')' :: rest, 1⟩ = (.token closing, ⟨rest, 1⟩) := rfl
  have finish : next ⟨[], 1⟩ = (.finish 1, ⟨[], 1⟩) := rfl
  -- Each parenthesis is one scan, and the end is the last.
  induction count generalizing made with
  | zero =>
    rw [List.replicate_zero, scansFrom_finish made finish]
    simp
  | succ count ih =>
    rw [List.replicate_succ, scansFrom_step made (close _) rfl, ih]
    simp [List.replicate_succ]

/-- The four tokens in front of a factor are scanned one after the other. -/
private theorem scansFrom_terms (rest : List Char) (made : Array Scan) :
    (Scanner.mk ('1' :: '+' :: '1' :: '*' :: rest) 1).scansFrom made =
      (Scanner.mk rest 1).scansFrom (made ++ #[.token one, .token plus, .token one, .token star]) := by
  -- Each of the four characters is a token.
  have term : next ⟨'1' :: '+' :: '1' :: '*' :: rest, 1⟩ =
      (.token one, ⟨'+' :: '1' :: '*' :: rest, 1⟩) := rfl
  have add : next ⟨'+' :: '1' :: '*' :: rest, 1⟩ = (.token plus, ⟨'1' :: '*' :: rest, 1⟩) := rfl
  have factor : next ⟨'1' :: '*' :: rest, 1⟩ = (.token one, ⟨'*' :: rest, 1⟩) := rfl
  have multiply : next ⟨'*' :: rest, 1⟩ = (.token star, ⟨rest, 1⟩) := rfl
  rw [scansFrom_step _ term rfl, scansFrom_step _ add rfl, scansFrom_step _ factor rfl,
    scansFrom_step _ multiply rfl]
  rfl

/-- The factor of a ladder is scanned in front of parentheses that belong to the rungs around it. -/
private theorem scansFrom_ladderFactor (rungs count : Nat) (made : Array Scan) :
    ((Scanner.mk (ladderFactor rungs ++ List.replicate count ')') 1).scansFrom made).1.toList =
      made.toList ++
        ((ladderFactorTokens rungs ++ List.replicate count closing).map .token ++ [.finish 1]) := by
  -- The parentheses that are closed behind a shorter ladder are one more than those behind it.
  induction rungs generalizing count made with
  | zero =>
    have literal : next ⟨'1' :: List.replicate count ')', 1⟩ =
        (.token one, ⟨List.replicate count ')', 1⟩) := by
      cases count <;> rfl
    rw [ladderFactor, List.singleton_append, scansFrom_step made literal rfl, scansFrom_closings]
    simp [ladderFactorTokens]
  | succ rungs ih =>
    have opens (rest : List Char) : next ⟨'(' :: rest, 1⟩ = (.token opening, ⟨rest, 1⟩) := rfl
    have behind : ladderFactor rungs ++ [')'] ++ List.replicate count ')' =
        ladderFactor rungs ++ List.replicate (count + 1) ')' := by
      rw [List.append_assoc, List.singleton_append, List.replicate_succ]
    -- The four tokens of the rung come in front of the shorter ladder.
    simp only [ladderFactor, List.cons_append]
    rw [scansFrom_step made (opens _) rfl, scansFrom_terms, behind, ih]
    simp [ladderFactorTokens, List.replicate_succ]

end Scanner

/-- A ladder is scanned as its tokens. -/
theorem scansOf_ladder (rungs : Nat) :
    scansOf (ladder rungs) = (ladderTokens rungs).map .token ++ [.finish 1] := by
  -- No parenthesis is open outside of the factor.
  have factor := Scanner.scansFrom_ladderFactor rungs 0
  simp only [List.replicate_zero, List.append_nil] at factor
  rw [scansOf, Scanner.scans, Scanner.start, ladder, String.toList_ofList, Scanner.scansFrom_terms,
    factor]
  simp [ladderTokens]

/-- The sum of one and the product of one and a factor takes two levels and two slots more. -/
private theorem exists_rung {tokens : List Token} {factor : Expression} {value : Value}
    (spelled : Phrase .unary tokens factor) (evaluated : factor.eval = .ok value) :
    ∃ tree whole, Sentence (one :: plus :: one :: star :: tokens) tree ∧ tree.eval = .ok whole ∧
      tree.nesting = factor.nesting + 2 ∧ tree.slots = factor.slots + 2 ∧
      tree.literals.length = factor.literals.length + 2 := by
  let product : Expression := .binary .multiply star (.number one) factor
  have adds : plus.kind.binaryOp? = some .add := rfl
  have multiplies : star.kind.binaryOp? = some .multiply := rfl
  -- The product is the right operand of the sum, so both add a slot and a level.
  have literal : Phrase .product [one] (.number one) := .factor (.number rfl)
  have literalEvaluated : (Expression.number one).eval = .ok (.ofLiteral "1") := rfl
  -- Neither of the two operators divides.
  have productEvaluated : product.eval = .ok _ :=
    Expression.eval_binary .multiply star literalEvaluated evaluated
  refine ⟨.binary .add plus (.number one) product, _,
    .chain adds rfl (.term literal) (.chain multiplies rfl literal spelled),
    Expression.eval_binary .add plus literalEvaluated productEvaluated, ?_⟩
  simp only [product, Expression.nesting, Expression.slots, Expression.literals,
    List.length_append, List.length_singleton]
  omega

/-- The parentheses around a shorter ladder take the third level of a rung. -/
private theorem exists_ladderFactor (rungs : Nat) :
    ∃ factor value, Phrase .unary (ladderFactorTokens rungs) factor ∧ factor.eval = .ok value ∧
      factor.nesting = 3 * rungs + 1 ∧ factor.slots = 2 * rungs + 1 ∧
      factor.literals.length = 2 * rungs + 1 := by
  -- Another rung is a group around a sum that ends in the factor.
  induction rungs with
  | zero => exact ⟨_, _, .number rfl, rfl, rfl, rfl, rfl⟩
  | succ rungs ih =>
    obtain ⟨factor, _, spelled, evaluated, nesting, slots, literals⟩ := ih
    obtain ⟨tree, value, treeSpelled, treeEvaluated, treeNesting, treeSlots, treeLiterals⟩ :=
      exists_rung spelled evaluated
    refine ⟨.group tree, value, .group rfl treeSpelled rfl, treeEvaluated, ?_⟩
    simp only [Expression.nesting, Expression.slots, Expression.literals]
    omega

/-- A ladder that is not too high is compiled, and its run fills two slots for each rung. -/
theorem exists_ladder_peak {rungs : Nat} (low : rungs ≤ 84) :
    ∃ chunk peak, compile (ladder rungs) = .ok chunk ∧ (Machine.start chunk).Reaches peak ∧
      peak.stack.length = 2 * rungs + 3 := by
  obtain ⟨factor, _, factorSpelled, factorEvaluated, factorNesting, factorSlots, factorLiterals⟩ :=
    exists_ladderFactor rungs
  obtain ⟨tree, value, spelled, evaluated, nesting, slots, literals⟩ :=
    exists_rung factorSpelled factorEvaluated
  -- The limits leave room for just so many rungs, and an expression with a value has a peak.
  have lexed := scansOf_eq_tokens_iff.1 (scansOf_ladder rungs)
  -- Three levels for each rung and three outside are not more than the limit.
  have shallow : tree.nesting ≤ maxNesting := by
    simp only [maxNesting]
    omega
  have fits : tree.literals.length ≤ maxConstants := by
    simp only [maxConstants]
    omega
  -- The chunk of the expression holds its code from the start.
  obtain ⟨peak, reached, height⟩ := Machine.exists_peak (tree.chunk_holds 1 fits).1 evaluated
  refine ⟨_, peak, compile_sentence lexed spelled shallow fits, reached, ?_⟩
  rw [height, slots, factorSlots, List.length_nil]
  omega

end Ladder

/--
No text that is compiled fills more than 171 slots of the stack, in any state that a new machine
comes to on the way or stops in, and some text fills as many.

So the stack never grows beyond the slots that are set aside.
-/
theorem compile_stack_bound :
    (∀ source chunk later, compile source = .ok chunk → (Machine.start chunk).Reaches later →
      later.stack.length ≤ 171 ∧ later.step.later.stack.length ≤ 171) ∧
    171 ≤ defaultStackCapacity ∧
    ∃ source chunk later, compile source = .ok chunk ∧ (Machine.start chunk).Reaches later ∧
      later.stack.length = 171 := by
  refine ⟨?_, by decide, ?_⟩
  · -- What is compiled is a sentence within the limit, and its slots bound the stack.
    intro source chunk later built reached
    obtain ⟨tokens, endLine, tree, _, spelled, shallow, fits, rfl⟩ := compile_eq_ok built
    have within : (Machine.start (tree.chunk endLine)).StaysWithin 171 := fun state onWay =>
      Nat.le_trans (Machine.staysWithin_chunk endLine fits state onWay)
        (spelled.slots_le_of_nesting shallow)
    exact ⟨within later reached, within.step reached⟩
  · -- Three levels for each of 84 rungs, and three for the sum outside, are all there are.
    obtain ⟨chunk, peak, built, reached, height⟩ := exists_ladder_peak (Nat.le_refl 84)
    exact ⟨_, chunk, peak, built, reached, height⟩

/-- The sum `1+1*1` fills three slots at once, from where the bound holds as well. -/
theorem compile_stack_bound_sum :
    ∃ chunk peak, compile "1+1*1" = .ok chunk ∧ (Machine.start chunk).Reaches peak ∧
      peak.stack.length = 3 ∧ peak.step.later.stack.length ≤ 171 := by
  -- Without rungs, the ladder is the sum itself.
  obtain ⟨chunk, peak, built, reached, height⟩ := exists_ladder_peak (Nat.zero_le 84)
  have source : ladder 0 = "1+1*1" := by decide
  rw [source] at built
  exact ⟨chunk, peak, built, reached, height, (compile_stack_bound.1 _ _ _ built reached).2⟩

end ByteCalc
