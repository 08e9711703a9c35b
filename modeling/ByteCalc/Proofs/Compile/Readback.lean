import ByteCalc.Proofs.Compile.Output
import ByteCalc.Proofs.Machine.Execution
import ByteCalc.Proofs.Machine.Stream

/-! The expression of a compiled text is read back from the code and the constants alone. -/

namespace ByteCalc

/-- What is left of an expression without its groupings and without the places of its tokens. -/
inductive Formula where
  /-- The value of a literal. -/
  | number (value : Value)
  /-- A negation. -/
  | negate (operand : Formula)
  /-- An operator with its two operands. -/
  | binary (op : BinaryOp) (left right : Formula)
deriving DecidableEq, Repr

namespace Formula

/-- The values of a formula, from the left to the right. -/
def values : Formula → List Value
  | number value => [value]
  | negate operand => operand.values
  | binary _ left right => left.values ++ right.values

/-- The instructions of a formula in postorder, given the pool index of its first value. -/
def instructions (first : Nat) : Formula → List Instruction
  | number _ => [.load first]
  | negate operand => operand.instructions first ++ [.negate]
  | binary op left right =>
    left.instructions first ++ right.instructions (first + left.values.length) ++ [.binary op]

end Formula

namespace Expression

/-- The formula of an expression. -/
def formula : Expression → Formula
  | number literal => .number (.ofLiteral literal.lexeme)
  | group inside => inside.formula
  | negate _ operand => .negate operand.formula
  | binary op _ left right => .binary op left.formula right.formula

/-- The values of the literals are those of the formula. -/
theorem values_formula (tree : Expression) : tree.formula.values = tree.values := by
  -- Parentheses have no values of their own.
  induction tree with
  | number literal => rfl
  | group inside ih => exact ih
  | negate sign operand ih => exact ih
  | binary op operator left right leftIh rightIh =>
    -- The values on the left come before those on the right, in both lists.
    rw [formula, Formula.values, leftIh, rightIh, values, values, values, literals,
      List.map_append]

/-- A formula has as many values as its expression has literals. -/
theorem length_values_formula (tree : Expression) :
    tree.formula.values.length = tree.literals.length := by
  rw [values_formula, values, List.length_map]

/-- The code of an expression has the instructions of its formula, each of them with a line. -/
theorem instructions_formula (tree : Expression) (first : Nat) :
    tree.formula.instructions first = (tree.code first).map Placed.instruction := by
  -- The code of a grouping is that of what stands inside.
  induction tree generalizing first with
  | number literal => rfl
  | group inside ih => exact ih first
  | negate sign operand ih =>
    -- The negation is the last instruction on both sides.
    simp only [formula, Formula.instructions, ih, code, List.map_append, List.map_cons,
      List.map_nil]
  | binary op operator left right leftIh rightIh =>
    -- The indices on the right start behind the literals on the left.
    simp only [formula, Formula.instructions, leftIh, rightIh, length_values_formula, code,
      List.map_append, List.map_cons, List.map_nil]

end Expression

namespace Instruction

/-- What a decoder makes of the bytes of an instruction. -/
def piece : Instruction → Piece
  | load index => .load index (Opcode.loadOf index).width
  | binary op => .plain (.binary op)
  | negate => .plain .negate
  | ret => .plain .ret

/-- The index of a load, if there is one, can be spread over the operand bytes. -/
def Fits (instruction : Instruction) : Prop :=
  ∀ index ∈ instruction.index?, index < maxConstants

end Instruction

namespace Piece

/-- The bytes of an instruction are decoded as that instruction, whatever follows them. -/
theorem stream_instruction {instruction : Instruction} (fits : instruction.Fits)
    (rest : List UInt8) :
    stream (instruction.bytes ++ rest) = instruction.piece :: stream rest := by
  cases instruction with
  | load index =>
    -- The first byte tells how many operand bytes there are.
    have inside : index < maxConstants := fits index rfl
    by_cases short : index ≤ maxShortIndex
    · have same := Instruction.toNat_ofNat_of_le short
      rw [Instruction.bytes_load_of_le short, Instruction.piece, Opcode.loadOf, if_pos short]
      simp [stream, Opcode.ofByte?_toByte, same, Opcode.width]
    · have same := LongIndex.toNat_ofNat inside
      rw [Instruction.bytes_load_of_not_le short, Instruction.piece, Opcode.loadOf, if_neg short]
      simp [stream, Opcode.ofByte?_toByte, LongIndex.bytes, same, Opcode.width]
  | binary op =>
    -- Each of the four operators is a byte without operands.
    cases op <;> rfl
  | negate | ret => rfl

/-- No instruction is lost and none is made up when the bytes of several are decoded. -/
theorem stream_program {program : List Instruction}
    (fits : ∀ instruction ∈ program, instruction.Fits) :
    stream (program.flatMap Instruction.bytes) = program.map Instruction.piece := by
  -- Behind each instruction, the decoder is at the first byte of the next one.
  induction program with
  | nil => rfl
  | cons instruction program ih =>
    obtain ⟨first, others⟩ := List.forall_mem_cons.1 fits
    -- The first instruction is decoded, and leaves the bytes of the others.
    rw [List.flatMap_cons, stream_instruction first, ih others, List.map_cons]

end Piece

namespace Formula

/-- The formulas on a stack behind a piece of code, which takes its operands from there. -/
def after? (pool : Array Value) : Piece → List Formula → Option (List Formula)
  | .load index _, stack => pool[index]?.map fun value => number value :: stack
  | .plain .negate, operand :: below => some (negate operand :: below)
  -- The right operand was pushed last.
  | .plain (.binary op), right :: left :: below => some (binary op left right :: below)
  | _, _ => none

/-- The formula that some pieces of code return, as the only one that is left on the stack. -/
def ofPieces? (pool : Array Value) : List Piece → List Formula → Option Formula
  | [.plain .ret], [formula] => some formula
  | piece :: pieces, stack => (after? pool piece stack).bind (ofPieces? pool pieces)
  | [], _ => none

/-- The formula that some code returns with a pool of constants. -/
def ofCode? (code : Array UInt8) (pool : Array Value) : Option Formula :=
  ofPieces? pool (Piece.stream code.toList) []

section Reading

variable {pool : Array Value} {stack : List Formula}

/-- A piece that leaves a stack is passed, and the pieces behind it are read on that stack. -/
theorem ofPieces?_cons {piece : Piece} {later : List Formula}
    (passed : after? pool piece stack = some later) (pieces : List Piece) :
    ofPieces? pool (piece :: pieces) stack = ofPieces? pool pieces later := by
  rw [ofPieces?, passed, Option.bind_some]
  -- A return, with which the reading ends, leaves no stack.
  rintro formula rfl rfl _
  cases passed

/-- Reading the instructions of a formula puts it on the stack, on top of what was there. -/
theorem ofPieces?_instructions {formula : Formula} {first : Nat}
    (pooled : formula.values <+: pool.toList.drop first) (behind : List Piece) :
    ofPieces? pool ((formula.instructions first).map Instruction.piece ++ behind) stack =
      ofPieces? pool behind (formula :: stack) := by
  -- Each operand is read on the stack that is left by what comes before it.
  induction formula generalizing first stack behind with
  | number value =>
    -- The value at the index is the first one that is left of the pool.
    obtain ⟨rest, whole⟩ := pooled
    have found : pool[first]? = some value := by
      rw [← Array.getElem?_toList, ← Nat.add_zero first, ← List.getElem?_drop, ← whole]
      rfl
    exact ofPieces?_cons (by rw [Instruction.piece, after?, found, Option.map_some]) behind
  | negate operand ih =>
    -- The operand is on top of the stack when the negation is read.
    rw [instructions, List.map_append, List.append_assoc, ih pooled]
    exact ofPieces?_cons rfl behind
  | binary op left right leftIh rightIh =>
    have onLeft : left.values <+: pool.toList.drop first :=
      (List.prefix_append _ _).trans pooled
    have onRight : right.values <+: pool.toList.drop (first + left.values.length) := by
      -- The values on the right stand behind those on the left.
      obtain ⟨rest, whole⟩ := pooled
      rw [values, List.append_assoc] at whole
      rw [← List.drop_drop, ← whole, List.drop_left]
      exact List.prefix_append _ _
    -- The right operand is on top of the left one when the operator is read.
    rw [instructions, List.map_append, List.map_append, List.append_assoc, List.append_assoc,
      leftIh onLeft, rightIh onRight]
    exact ofPieces?_cons rfl behind

end Reading

end Formula

namespace Expression

/-- The instructions of a whole text are those of its formula, and a return. -/
theorem bytes_program (tree : Expression) (endLine : UInt32) :
    Placed.bytes (tree.program endLine) =
      (tree.formula.instructions 0 ++ [Instruction.ret]).flatMap Instruction.bytes := by
  -- The lines do not show in the bytes.
  have bytes (program : List Placed) :
      Placed.bytes program = (program.map Placed.instruction).flatMap Instruction.bytes := by
    rw [List.flatMap_map]
    rfl
  rw [bytes, program, List.map_append, instructions_formula]
  rfl

/-- The formula of an expression is read back from its chunk. -/
theorem ofCode?_chunk {tree : Expression} (fits : tree.literals.length ≤ maxConstants)
    (endLine : UInt32) :
    Formula.ofCode? (tree.chunk endLine).code (tree.chunk endLine).constants =
      some tree.formula := by
  -- The loads count the literals, of which there are not too many.
  have loads (instruction : Instruction) (mem : instruction ∈ tree.formula.instructions 0) :
      instruction.Fits := by
    intro index isIndex
    rw [instructions_formula] at mem
    obtain ⟨placed, inCode, rfl⟩ := List.mem_map.1 mem
    have listed : index ∈ (tree.code 0).filterMap (·.instruction.index?) :=
      List.mem_filterMap.2 ⟨placed, inCode, isIndex⟩
    rw [code_indices, List.mem_range'_1] at listed
    omega
  have program (instruction : Instruction)
      (mem : instruction ∈ tree.formula.instructions 0 ++ [.ret]) : instruction.Fits := by
    rcases List.mem_append.1 mem with inside | last
    · exact loads instruction inside
    · obtain rfl := List.mem_singleton.1 last
      exact fun _ none => nomatch none
  -- The pool of the chunk holds just the values of the literals.
  have pooled : tree.formula.values <+: (tree.chunk endLine).constants.toList.drop 0 := by
    refine ⟨[], ?_⟩
    rw [List.append_nil, List.drop_zero, chunk_constants, values_formula]
  -- The instructions put the formula on an empty stack, from where the return takes it.
  rw [Formula.ofCode?, chunk_code, bytes_program, Piece.stream_program program, List.map_append,
    Formula.ofPieces?_instructions pooled]
  rfl

end Expression

/-- The tokens of a source text spell an expression, and no other one. -/
def Spells (source : String) (tree : Expression) : Prop :=
  ∃ tokens endLine, scansOf source = tokens.map .token ++ [.finish endLine] ∧
    Sentence tokens tree ∧ ∀ other, Sentence tokens other → other = tree

/--
Two compiled texts have the same code and the same constants, bit by bit, exactly if the
expressions that they spell are the same up to their groupings and the places of their tokens.

The formula that they have in common is read back from that code and these constants.
-/
theorem compile_same_code_iff {source twin : String} {chunk other : Chunk}
    (built : compile source = .ok chunk) (twinBuilt : compile twin = .ok other) :
    ∃ tree twinTree, Spells source tree ∧ Spells twin twinTree ∧
      Formula.ofCode? chunk.code chunk.constants = some tree.formula ∧
      Formula.ofCode? other.code other.constants = some twinTree.formula ∧
      (chunk.code = other.code ∧ chunk.constants = other.constants ↔
        tree.formula = twinTree.formula) := by
  -- Both chunks are those of expressions, and the formulas of these are read back.
  obtain ⟨tokens, endLine, tree, lexed, spelled, _, fits, rfl⟩ := compile_eq_ok built
  obtain ⟨twinTokens, twinLine, twinTree, twinLexed, twinSpelled, _, twinFits, rfl⟩ :=
    compile_eq_ok twinBuilt
  have read := Expression.ofCode?_chunk fits endLine
  have twinRead := Expression.ofCode?_chunk twinFits twinLine
  refine ⟨tree, twinTree,
    ⟨tokens, endLine, scansOf_eq_tokens_iff.2 lexed, spelled, fun _ also => also.unique spelled⟩,
    ⟨twinTokens, twinLine, scansOf_eq_tokens_iff.2 twinLexed, twinSpelled,
      fun _ also => also.unique twinSpelled⟩, read, twinRead, ?_, ?_⟩
  · -- What is read depends on nothing but the code and the constants.
    rintro ⟨code, constants⟩
    rw [code, constants, twinRead] at read
    exact (Option.some.inj read).symm
  · -- The bytes and the values are those of the formula.
    intro same
    constructor
    · rw [← Array.toList_inj, Expression.chunk_code, Expression.chunk_code,
        Expression.bytes_program, Expression.bytes_program, same]
    · rw [← Array.toList_inj, Expression.chunk_constants, Expression.chunk_constants,
        ← Expression.values_formula, ← Expression.values_formula, same]

/-- Neither parentheses nor the way in which a number is written can be read off the code. -/
theorem compile_same_code_iff_parentheses :
    ∃ chunk other tree twinTree, compile "-(1) * 2" = .ok chunk ∧
      compile "((-1.0) *\n2)" = .ok other ∧ chunk.code = other.code ∧
      chunk.lines ≠ other.lines ∧ Spells "-(1) * 2" tree ∧ Spells "((-1.0) *\n2)" twinTree ∧
      tree.formula = twinTree.formula ∧
      tree.formula = .binary .multiply (.negate (.number ⟨0x3FF0000000000000⟩))
        (.number ⟨0x4000000000000000⟩) := by
  -- Both chunks are computed, to be compared with what the theorem says.
  have first : (compile "-(1) * 2").toOption.map
      (fun chunk => (chunk.code, chunk.constants, chunk.lines)) =
      some (#[0, 0, 6, 0, 1, 4, 7], #[⟨0x3FF0000000000000⟩, ⟨0x4000000000000000⟩], #[⟨7, 1⟩]) := by
    decide +kernel
  have second : (compile "((-1.0) *\n2)").toOption.map
      (fun chunk => (chunk.code, chunk.constants, chunk.lines)) =
      some (#[0, 0, 6, 0, 1, 4, 7], #[⟨0x3FF0000000000000⟩, ⟨0x4000000000000000⟩],
        #[⟨3, 1⟩, ⟨2, 2⟩, ⟨1, 1⟩, ⟨1, 2⟩]) := by
    decide +kernel
  cases built : compile "-(1) * 2" with
  | error error => simp [built, Except.toOption] at first
  | ok chunk =>
    cases twinBuilt : compile "((-1.0) *\n2)" with
    | error error => simp [twinBuilt, Except.toOption] at second
    | ok other =>
      simp only [built, twinBuilt, Except.toOption, Option.map_some, Option.some.injEq,
        Prod.mk.injEq] at first second
      obtain ⟨code, constants, lines⟩ := first
      obtain ⟨twinCode, twinConstants, twinLines⟩ := second
      obtain ⟨tree, twinTree, spelled, twinSpelled, read, _, same⟩ :=
        compile_same_code_iff built twinBuilt
      refine ⟨chunk, other, tree, twinTree, rfl, rfl, code.trans twinCode.symm, ?_, spelled,
        twinSpelled, same.1 ⟨code.trans twinCode.symm, constants.trans twinConstants.symm⟩, ?_⟩
      · -- The same instructions stand on different lines.
        rw [lines, twinLines]
        decide
      · -- The code is short enough to be read by evaluation.
        rw [code, constants] at read
        exact Option.some.inj (read.symm.trans (by decide +kernel))

end ByteCalc
