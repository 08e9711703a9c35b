import ByteCalc.Proofs.Compile.Acceptance

/-! A compiled chunk holds the code of its expression in postorder, and nothing besides it. -/

namespace ByteCalc

/-- The pool index that an instruction loads from. -/
def Instruction.index? : Instruction → Option Nat
  | load index => some index
  | binary _ | negate | ret => none

namespace Expression

/-- The code of an expression that is the whole of a text, which ends on a line. -/
def program (tree : Expression) (endLine : UInt32) : List Placed :=
  tree.code 0 ++ [⟨.ret, endLine⟩]

/-- The chunk of an expression holds its code, the lines of that and its literals. -/
theorem chunk_appends (tree : Expression) (endLine : UInt32) :
    Chunk.empty.Appends (tree.program endLine) tree.values (tree.chunk endLine) := by
  -- The pool was empty, so that the first literal has the first index.
  have written := (Chunk.empty.writeExpression_appends tree).trans
    (Chunk.writeOpcode_appends _ .ret rfl endLine)
  rwa [List.append_nil] at written

/-- The code of the chunk is that of the expression, and the return. -/
theorem chunk_code (tree : Expression) (endLine : UInt32) :
    (tree.chunk endLine).code.toList = Placed.bytes (tree.program endLine) :=
  (tree.chunk_appends endLine).code

/-- The bytes have the lines of their instructions. -/
theorem chunk_byteLines (tree : Expression) (endLine : UInt32) :
    (tree.chunk endLine).byteLines = Placed.lines (tree.program endLine) :=
  (tree.chunk_appends endLine).lines

/-- The pool holds the values of the literals, in their order. -/
theorem chunk_constants (tree : Expression) (endLine : UInt32) :
    (tree.chunk endLine).constants.toList = tree.values :=
  (tree.chunk_appends endLine).constants

/-- No part of an expression returns. -/
theorem ne_ret_of_mem_code {tree : Expression} {first : Nat} {placed : Placed}
    (mem : placed ∈ tree.code first) : placed.instruction ≠ .ret := by
  -- Each node adds an instruction of its own kind.
  induction tree generalizing first with
  | number literal =>
    obtain rfl := List.mem_singleton.1 mem
    simp
  | group inside ih => exact ih mem
  -- The operand comes first, and then the negation.
  | negate sign operand ih =>
    rcases List.mem_append.1 mem with inner | last
    · exact ih inner
    · obtain rfl := List.mem_singleton.1 last
      simp
  | binary op operator left right leftIh rightIh =>
    -- The operands come first, the left one before the right one.
    rcases List.mem_append.1 mem with inner | last
    · rcases List.mem_append.1 inner with onLeft | onRight
      · exact leftIh onLeft
      · exact rightIh onRight
    · obtain rfl := List.mem_singleton.1 last
      simp

/-- The loads take one index after the other, in the order of the literals. -/
theorem code_indices (tree : Expression) (first : Nat) :
    (tree.code first).filterMap (·.instruction.index?) =
      List.range' first tree.literals.length := by
  -- The literals on the right of an operator go on where those on the left have stopped.
  induction tree generalizing first with
  | number literal => rfl
  | group inside ih => exact ih first
  | negate sign operand ih =>
    rw [code, List.filterMap_append, ih]
    -- The negation itself loads nothing.
    exact List.append_nil _
  | binary op operator left right leftIh rightIh =>
    rw [code, List.filterMap_append, List.filterMap_append, leftIh, rightIh, literals,
      List.length_append, ← List.range'_append_1]
    exact List.append_nil _

end Expression

/-- The literals of an expression are the numbers among its tokens, in the same order. -/
theorem Phrase.literals_eq {level : Level} {tokens : List Token} {tree : Expression}
    (spelled : Phrase level tokens tree) :
    tree.literals = tokens.filter (·.kind = .number) := by
  -- Parentheses, signs and operators are tokens of other kinds.
  induction spelled with
  | number kind => simp [Expression.literals, kind]
  | group opens spelled closes ih => simp [Expression.literals, opens, closes, ih]
  | negate kind spelled ih => simp [Expression.literals, kind, ih]
  | factor spelled ih | term spelled ih => exact ih
  | @chain level operator op before after left right spells same leftSpelled rightSpelled leftIh
      rightIh =>
    -- An operator is no number, as its kind spells an operation.
    have other : operator.kind ≠ .number := by
      intro number
      simp [number, TokenKind.binaryOp?] at spells
    simp [Expression.literals, other, leftIh, rightIh]

/--
A compiled chunk holds the literals of its text in order, and the code of the expression that
the text spells, in postorder and followed by the only return.

Each byte has the line of the token that its instruction is written for.
-/
theorem compile_output {source : String} {chunk : Chunk} (built : compile source = .ok chunk) :
    ∃ tokens endLine tree, scansOf source = tokens.map .token ++ [.finish endLine] ∧
      Sentence tokens tree ∧
      tree.literals = tokens.filter (·.kind = .number) ∧
      chunk.constants.toList = tree.literals.map (fun literal => .ofLiteral literal.lexeme) ∧
      chunk.code.toList = Placed.bytes (tree.code 0 ++ [⟨.ret, endLine⟩]) ∧
      (∀ offset, chunk.line? offset =
        (Placed.lines (tree.code 0 ++ [⟨.ret, endLine⟩]))[offset]?) ∧
      (tree.code 0).filterMap (·.instruction.index?) = List.range tree.literals.length ∧
      ∀ placed ∈ tree.code 0, placed.instruction ≠ .ret := by
  -- The parts are those that were written to the empty chunk.
  obtain ⟨tokens, endLine, tree, lexed, spelled, _, _, rfl⟩ := compile_eq_ok built
  refine ⟨tokens, endLine, tree, scansOf_eq_tokens_iff.2 lexed, spelled, spelled.literals_eq,
    tree.chunk_constants endLine, tree.chunk_code endLine, ?_, ?_,
    fun placed => Expression.ne_ret_of_mem_code⟩
  · -- The line table gives the lines of the bytes, one by one.
    intro offset
    rw [Chunk.line?_eq, tree.chunk_byteLines endLine]
    rfl
  · rw [Expression.code_indices, List.range_eq_range']

/-- An operator keeps its own line, although it is written behind the operand of the next line. -/
theorem compile_output_quotient :
    ∃ chunk tokens endLine tree, compile "1 /\n2" = .ok chunk ∧
      chunk.code.toList = [0, 0, 0, 1, 5, 7] ∧ chunk.byteLines = [1, 1, 2, 2, 1, 2] ∧
      Sentence tokens tree ∧ chunk.code.toList = Placed.bytes (tree.program endLine) := by
  -- The chunk is computed, but its expression is not.
  have found : (compile "1 /\n2").toOption.map (fun chunk => (chunk.code.toList, chunk.byteLines)) =
      some ([0, 0, 0, 1, 5, 7], [1, 1, 2, 2, 1, 2]) := by decide +kernel
  cases built : compile "1 /\n2" with
  | error error => simp [built, Except.toOption] at found
  | ok chunk =>
    obtain ⟨code, lines⟩ : chunk.code.toList = [0, 0, 0, 1, 5, 7] ∧
        chunk.byteLines = [1, 1, 2, 2, 1, 2] := by
      simpa [built, Except.toOption] using found
    -- What the theorem says of the code is compared with the computed bytes.
    obtain ⟨tokens, endLine, tree, _, spelled, _, _, written, _⟩ := compile_output built
    exact ⟨chunk, tokens, endLine, tree, rfl, code, lines, spelled, written⟩

end ByteCalc
