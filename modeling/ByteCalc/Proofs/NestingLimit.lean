import ByteCalc.Proofs.Compile.Acceptance
import ByteCalc.Proofs.Expression.Path

/-! Which expressions are refused as too deep: right operands count like signs and parentheses. -/

namespace ByteCalc

/--
The limit of the nesting, told by what stands around the literals of an expression.

An expression is too deep just if around some literal more than 254 signs, parentheses and right
operands are open, so that signs and parentheses alone are safe up to 84 of them.
-/
theorem compile_nesting {source : String} {tokens : List Token} {endLine : UInt32}
    {tree : Expression} (scans : scansOf source = tokens.map .token ++ [.finish endLine])
    (spelled : Sentence tokens tree) :
    ((∀ path ∈ tree.paths, enclosures path + rightTurns path ≤ 254) →
      ∀ line, compile source ≠ .error ⟨.tooDeep, line⟩) ∧
    ((∃ path ∈ tree.paths, 254 < enclosures path + rightTurns path) →
      tree.literals.length ≤ 2 ^ 24 → ∃ line, compile source = .error ⟨.tooDeep, line⟩) ∧
    ((∀ path ∈ tree.paths, enclosures path ≤ 84) →
      ∀ line, compile source ≠ .error ⟨.tooDeep, line⟩) := by
  have lexed := scansOf_eq_tokens_iff.1 scans
  have accepts : (∀ path ∈ tree.paths, enclosures path + rightTurns path ≤ 254) →
      ∀ line, compile source ≠ .error ⟨.tooDeep, line⟩ := by
    intro all line refused
    have shallow : tree.nesting ≤ maxNesting := Expression.nesting_le_iff.2 all
    -- What is not too deep is compiled, or has too many literals.
    by_cases fits : tree.literals.length ≤ maxConstants
    · rw [compile_sentence lexed spelled shallow fits] at refused
      cases refused
    · obtain ⟨error, _, overfull⟩ :=
        compile_overfull_sentence lexed spelled shallow (Nat.lt_of_not_le fits)
      rw [overfull] at refused
      cases refused
  refine ⟨accepts, fun ⟨path, mem, above⟩ fits => ?_, fun few => accepts fun path mem => ?_⟩
  · -- One path that is too deep makes the expression too deep.
    have deep : ¬ tree.nesting ≤ maxNesting := fun shallow =>
      absurd (Expression.nesting_le_iff.1 shallow path mem) (Nat.not_le_of_lt above)
    exact compile_deep_sentence lexed spelled (Nat.lt_of_not_le deep) fits
  · -- Two right operands can stand around each enclosure, and two in the innermost one.
    have inner : rightTurns path + 1 ≤ 2 * enclosures path + 3 := spelled.rightTurns_le mem
    have outer := few path mem
    omega

section Signs

/-- The sign between the two operands of the examples. -/
private def plusSign : Token :=
  ⟨.plus, "+", 1⟩

/-- The literal that all signs of the examples belong to. -/
private def literalOne : Token :=
  ⟨.number, "1", 1⟩

/-- A plus sign in front of a text is scanned as one token. -/
private theorem next_plus (rest : List Char) :
    Scanner.next ⟨'+' :: rest, 1⟩ = (.token plusSign, ⟨rest, 1⟩) :=
  rfl

/-- Behind the last character there is only the end. -/
private theorem next_end : Scanner.next ⟨[], 1⟩ = (.finish 1, ⟨[], 1⟩) :=
  rfl

/-- Signs in the left operand are scanned first, then the sum. -/
private theorem scansOf_signed_plus (count : Nat) :
    scansOf (signed count ++ "+1") =
      (signedTokens count ++ plusSign :: [literalOne]).map .token ++ [.finish 1] := by
  obtain ⟨later, scanned, same⟩ := scansFrom_signs count ['1', '+', '1'] #[]
  have whole : (signed count ++ "+1").toList =
      List.replicate count '-' ++ ['1', '+', '1'] := by
    rw [String.toList_append, signed, String.toList_ofList, List.append_assoc]
    rfl
  -- Behind the signs there are three tokens, and the end.
  rw [scansOf, Scanner.scans, Scanner.start, whole, same,
    Scanner.scansFrom_step _ (Scanner.next_one _ (by simp)) rfl,
    Scanner.scansFrom_step _ (next_plus _) rfl,
    Scanner.scansFrom_step _ (Scanner.next_one [] (by simp)) rfl,
    Scanner.scansFrom_finish _ next_end]
  simp [scanned, signedTokens, literalOne]

/-- Signs in the right operand are scanned behind the first literal and the sum. -/
private theorem scansOf_plus_signed (count : Nat) :
    scansOf ("1+" ++ signed count) =
      ([literalOne] ++ plusSign :: signedTokens count).map .token ++ [.finish 1] := by
  obtain ⟨later, scanned, same⟩ :=
    scansFrom_signs count ['1'] ((#[].push (.token literalOne)).push (.token plusSign))
  have whole : ("1+" ++ signed count).toList =
      '1' :: '+' :: (List.replicate count '-' ++ ['1']) := by
    rw [String.toList_append, signed, String.toList_ofList]
    simp
  -- The signs stand between two tokens in front of them and one behind them.
  rw [scansOf, Scanner.scans, Scanner.start, whole,
    Scanner.scansFrom_step _ (Scanner.next_one _ (by simp)) rfl,
    Scanner.scansFrom_step _ (next_plus _) rfl, ← literalOne, same,
    Scanner.scansFrom_step _ (Scanner.next_one [] (by simp)) rfl,
    Scanner.scansFrom_finish _ next_end]
  simp [scanned, signedTokens, literalOne]

/-- A literal behind signs nests as deeply in a left operand as by itself. -/
private theorem exists_signed_plus (count : Nat) :
    ∃ tokens tree, scansOf (signed count ++ "+1") = tokens.map .token ++ [.finish 1] ∧
      Sentence tokens tree ∧ tree.nesting = max (count + 1) 2 := by
  -- The signs bind tighter than the sum, so that they are all on its left.
  obtain ⟨nest, spelled, nesting, _⟩ := exists_signed count
  have spells : plusSign.kind.binaryOp? = some .add := rfl
  have last : Phrase .unary [literalOne] (.number literalOne) := .number rfl
  refine ⟨_, _, scansOf_signed_plus count,
    .chain spells rfl (.term (.factor spelled)) (.factor last), ?_⟩
  rw [Expression.nesting, nesting]
  rfl

/-- In a right operand it nests one level deeper, although it stands behind no more signs. -/
private theorem exists_plus_signed (count : Nat) :
    ∃ tokens tree, scansOf ("1+" ++ signed count) = tokens.map .token ++ [.finish 1] ∧
      Sentence tokens tree ∧ tree.nesting = count + 2 ∧ tree.literals.length = 2 ∧
      ∀ path ∈ tree.paths, enclosures path ≤ count := by
  -- The signs belong to the right operand, behind the sum.
  obtain ⟨nest, spelled, nesting, literals⟩ := exists_signed count
  have spells : plusSign.kind.binaryOp? = some .add := rfl
  have first : Phrase .unary [literalOne] (.number literalOne) := .number rfl
  refine ⟨_, _, scansOf_plus_signed count,
    .chain spells rfl (.term (.factor first)) (.factor spelled), ?_, ?_, ?_⟩
  · rw [Expression.nesting, nesting, Expression.nesting]
    omega
  · rw [Expression.literals, List.length_append, literals]
    rfl
  · intro path mem
    rcases List.mem_append.1 mem with onLeft | onRight
    · obtain rfl := List.mem_singleton.1 onLeft
      exact Nat.zero_le count
    · -- The operand has one level for each sign, and one for its literal.
      obtain ⟨inner, below, rfl⟩ := List.mem_map.1 onRight
      have within := Expression.lt_nesting_of_mem_paths below
      simp only [enclosures]
      omega

/-- As a left operand, a literal behind 254 signs is not too deep. -/
theorem compile_nesting_leftOperand :
    ¬ ∃ line, compile (signed 254 ++ "+1") = .error ⟨.tooDeep, line⟩ := by
  rintro ⟨line, refused⟩
  -- At 254 signs, the literal needs as many levels as there are.
  obtain ⟨tokens, tree, scans, spelled, nesting⟩ := exists_signed_plus 254
  have shallow : tree.nesting ≤ 254 + 1 := by omega
  exact (compile_nesting scans spelled).1 (Expression.nesting_le_iff.1 shallow) line refused

/-- As a right operand it is too deep, although no literal stands behind more than 254 signs. -/
theorem compile_tooDeep_rightOperand :
    ∃ tokens tree, scansOf ("1+" ++ signed 254) = tokens.map .token ++ [.finish 1] ∧
      Sentence tokens tree ∧ (∀ path ∈ tree.paths, enclosures path ≤ 254) ∧
      ∃ line, compile ("1+" ++ signed 254) = .error ⟨.tooDeep, line⟩ := by
  -- The same signs need one level more on the right.
  obtain ⟨tokens, tree, scans, spelled, nesting, literals, few⟩ := exists_plus_signed 254
  refine ⟨tokens, tree, scans, spelled, few, ?_⟩
  refine compile_deep_sentence (scansOf_eq_tokens_iff.1 scans) spelled ?_ ?_
  · simp only [nesting, maxNesting]
    omega
  · simp only [literals, maxConstants]
    omega

end Signs

end ByteCalc
