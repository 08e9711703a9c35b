import ByteCalc.Interpret
import ByteCalc.Proofs.Compile.Output
import ByteCalc.Proofs.Machine.Simulation

/-! Interpretation of a source text gives the value of the expression that the text spells. -/

namespace ByteCalc

/-- The chunk of an expression holds it at the start, and the return right behind it. -/
theorem Expression.chunk_holds (tree : Expression) (endLine : UInt32)
    (fits : tree.literals.length ≤ maxConstants) :
    (tree.chunk endLine).HoldsExpression 0 0 tree ∧
      (tree.chunk endLine).Holds (tree.width 0) [⟨.ret, endLine⟩] := by
  -- Nothing is in front of the code, and the return is all that is behind it.
  have whole : (tree.chunk endLine).Holds 0 (tree.code 0 ++ [⟨.ret, endLine⟩]) :=
    ⟨⟨[], by rw [List.drop_zero, tree.chunk_code, List.append_nil, Expression.program]⟩,
      ⟨[], by rw [List.drop_zero, tree.chunk_byteLines, List.append_nil, Expression.program]⟩⟩
  refine ⟨⟨whole.left, ?_, ?_⟩, ?_⟩
  · exact ⟨[], by rw [List.drop_zero, tree.chunk_constants, List.append_nil]⟩
  · -- The pool holds the literals alone.
    have size := congrArg List.length (tree.chunk_constants endLine)
    rw [Array.length_toList, Expression.values, List.length_map] at size
    omega
  -- Behind the code of the expression, its size is the offset of the return.
  · simpa [Expression.width] using whole.right

/-- The return is the last byte of the chunk. -/
theorem Expression.chunk_size (tree : Expression) (endLine : UInt32) :
    (tree.chunk endLine).code.size = tree.width 0 + 1 := by
  -- The size is read off the list of bytes, which ends with the return.
  have size := congrArg List.length (tree.chunk_code endLine)
  rwa [Array.length_toList, Expression.program, Placed.bytes_append, List.length_append] at size

section Runs

variable {tree : Expression} {endLine : UInt32}

/-- An expression with a value is run to the end of its chunk, where nothing else is left. -/
theorem run_chunk (fits : tree.literals.length ≤ maxConstants) {value : Value}
    (evaluated : tree.eval = .ok value) :
    (Machine.start (tree.chunk endLine)).run =
      (.ok value, ⟨tree.chunk endLine, (tree.chunk endLine).code.size, []⟩) := by
  -- The code of the expression leaves its value for the return.
  obtain ⟨held, returns⟩ := tree.chunk_holds endLine fits
  have stepped : Machine.step ⟨tree.chunk endLine, tree.width 0, [value]⟩ =
      .stopped (.ok value) ⟨tree.chunk endLine, tree.width 0 + 1, []⟩ :=
    Machine.step_ret returns rfl
  rw [Machine.start, Machine.run_code held evaluated, Nat.zero_add, Machine.run_stopped stepped,
    tree.chunk_size]

/-- An expression without a value ends the run with its error. -/
theorem run_chunk_error (fits : tree.literals.length ≤ maxConstants) {error : RuntimeError}
    (failed : tree.eval = .error error) :
    (Machine.start (tree.chunk endLine)).run.1 = .error error :=
  Machine.run_code_error (tree.chunk_holds endLine fits).1 failed

/-- The run of the chunk of an expression gives the value of the expression. -/
theorem run_chunk_fst (fits : tree.literals.length ≤ maxConstants) :
    (Machine.start (tree.chunk endLine)).run.1 = tree.eval := by
  -- The expression has a value or a fault, and both are known to be that of the run.
  cases evaluated : tree.eval with
  | ok value => rw [run_chunk fits evaluated]
  | error error => rw [run_chunk_error fits evaluated]

end Runs

/-- A value that is interpreted is the value of the run. -/
theorem mapError_runtime_ok {outcome : Outcome} {value : Value}
    (shown : outcome.mapError InterpretError.runtime = .ok value) : outcome = .ok value := by
  -- Only errors are changed.
  cases outcome with
  | ok other => cases shown; rfl
  | error error => cases shown

/-- An error of the run is interpreted as the same error. -/
theorem mapError_runtime_error {outcome : Outcome} {error : RuntimeError}
    (shown : outcome.mapError InterpretError.runtime = .error (.runtime error)) :
    outcome = .error error := by
  -- Errors are wrapped, one to one.
  cases outcome with
  | ok value => cases shown
  | error other => cases shown; rfl

/-- What is compiled is the code of an expression, and is interpreted as its evaluation. -/
theorem interpret_compiled {source : String} {chunk : Chunk} (built : compile source = .ok chunk) :
    ∃ tokens endLine tree, lex source = ⟨tokens, .ok endLine⟩ ∧ Sentence tokens tree ∧
      tree.literals.length ≤ maxConstants ∧ chunk = tree.chunk endLine ∧
      interpret source = tree.eval.mapError .runtime := by
  obtain ⟨tokens, endLine, tree, lexed, spelled, _, fits, rfl⟩ := compile_eq_ok built
  refine ⟨tokens, endLine, tree, lexed, spelled, fits, rfl, ?_⟩
  -- The run starts at the first byte, with an empty stack.
  rw [interpret, built, ← run_chunk_fst fits]
  rfl

/-- A text that is compiled is interpreted as the expression that its tokens spell. -/
theorem interpret_of_sentence {source : String} {tokens : List Token} {endLine : UInt32}
    {tree : Expression} {chunk : Chunk} (lexed : lex source = ⟨tokens, .ok endLine⟩)
    (spelled : Sentence tokens tree) (built : compile source = .ok chunk) :
    interpret source = tree.eval.mapError .runtime := by
  obtain ⟨others, otherLine, other, otherLexed, otherSpelled, _, _, evaluated⟩ :=
    interpret_compiled built
  -- The same tokens spell no other expression.
  cases lexed.symm.trans otherLexed
  rw [spelled.unique otherSpelled, evaluated]

section Limits

variable {source : String} {tokens : List Token} {token : Token} {endLine : UInt32}
  {tree : Expression}

/-- A sentence within the limits is interpreted as its expression. -/
theorem interpret_sentence (lexed : lex source = ⟨tokens, .ok endLine⟩)
    (spelled : Sentence tokens tree) (shallow : tree.nesting ≤ maxNesting)
    (fits : tree.literals.length ≤ maxConstants) :
    interpret source = tree.eval.mapError .runtime :=
  interpret_of_sentence lexed spelled (compile_sentence lexed spelled shallow fits)

/-- A literal is compiled to its load and the return. -/
theorem compile_number (lexed : lex source = ⟨[token], .ok endLine⟩)
    (number : token.kind = .number) :
    compile source = .ok ((Expression.number token).chunk endLine) :=
  -- A single literal is within both limits.
  compile_sentence lexed (.term (.factor (.number number)))
    (by simp [Expression.nesting, maxNesting]) (by simp [Expression.literals, maxConstants])

/-- A literal is interpreted as what it denotes. -/
theorem interpret_number (lexed : lex source = ⟨[token], .ok endLine⟩)
    (number : token.kind = .number) : interpret source = .ok (.ofLiteral token.lexeme) :=
  interpret_of_sentence lexed (.term (.factor (.number number))) (compile_number lexed number)

end Limits

/--
A source text that is compiled is interpreted as the expression that it spells.

No text stops the machine but through a division by zero, and a run with a value ends behind
the last byte of the code, with an empty stack.
-/
theorem interpret_eval (source : String) :
    (∀ tokens endLine tree chunk, scansOf source = tokens.map .token ++ [.finish endLine] →
      Sentence tokens tree → compile source = .ok chunk →
        interpret source = tree.eval.mapError .runtime) ∧
    (∀ error, interpret source = .error (.runtime error) → error.fault = .divisionByZero) ∧
    ∀ value chunk, interpret source = .ok value → compile source = .ok chunk →
      (Machine.start chunk).run = (.ok value, ⟨chunk, chunk.code.size, []⟩) := by
  refine ⟨?_, ?_, ?_⟩
  · -- The tokens are given, and the chunk is known to come from some expression.
    intro tokens endLine tree chunk scans spelled built
    obtain ⟨others, otherLine, other, lexed, otherSpelled, _, _, evaluated⟩ :=
      interpret_compiled built
    -- The text has one sequence of tokens, and these spell one expression.
    cases (scansOf_eq_tokens_iff.1 scans).symm.trans lexed
    cases spelled.unique otherSpelled
    exact evaluated
  · intro error stopped
    cases built : compile source with
    | error fault =>
      rw [interpret, built] at stopped
      cases stopped
    | ok chunk =>
      obtain ⟨_, _, tree, _, _, _, _, evaluated⟩ := interpret_compiled built
      exact Expression.eval_error (mapError_runtime_error (evaluated.symm.trans stopped))
  · -- A run with a value is that of an expression with the value.
    intro value chunk returned built
    obtain ⟨_, _, tree, _, _, fits, rfl, evaluated⟩ := interpret_compiled built
    exact run_chunk fits (mapError_runtime_ok (evaluated.symm.trans returned))

/-- A division by zero has the line of its operator, and not that of the text before it. -/
theorem interpret_eval_quotient :
    interpret "1\n/ 0" = .error (.runtime ⟨.divisionByZero, some 2⟩) := by
  let one : Token := ⟨.number, "1", 1⟩
  let slash : Token := ⟨.slash, "/", 2⟩
  let zero : Token := ⟨.number, "0", 2⟩
  have scans : scansOf "1\n/ 0" = [one, slash, zero].map .token ++ [.finish 2] := by
    -- The four parts are the two literals, the operator between them and the end.
    decide +kernel
  have dividend : Phrase .product [one] (.number one) := .factor (.number rfl)
  have divisor : Phrase .unary [zero] (.number zero) := .number rfl
  have spells : slash.kind.binaryOp? = some .divide := rfl
  have spelled : Sentence [one, slash, zero] (.binary .divide slash (.number one) (.number zero)) :=
    .term (.chain spells rfl dividend divisor)
  have accepted := compile_sentence (scansOf_eq_tokens_iff.1 scans) spelled (by decide) (by decide)
  -- The words of the literals are left alone, apart from that of the divisor.
  have divides (left right : Value) (isZero : right = ⟨0⟩) :
      BinaryOp.divide.evalAt 2 left right = .error ⟨.divisionByZero, some 2⟩ :=
    if_pos ⟨rfl, .inl isZero⟩
  have isZero : Value.ofLiteral "0" = ⟨0⟩ := by decide +kernel
  have left : (Expression.number one).eval = .ok (.ofLiteral "1") := rfl
  have right : (Expression.number zero).eval = .ok (.ofLiteral "0") := rfl
  have evaluated := (Expression.eval_binary .divide slash left right).trans (divides _ _ isZero)
  rw [(interpret_eval _).1 _ _ _ _ scans spelled accepted, evaluated]
  rfl

end ByteCalc
