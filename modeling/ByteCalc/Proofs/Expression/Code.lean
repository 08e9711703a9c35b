import ByteCalc.Proofs.Chunk.LineTable
import ByteCalc.Proofs.Expression.Grammar

/-! The code of an expression as a list of instructions, and the chunk that holds it. -/

namespace ByteCalc

/-- An instruction with its operands. -/
inductive Instruction where
  /-- Pushes the constant at an index. -/
  | load (index : Nat)
  /-- Replaces the two values on top by the result of an operator. -/
  | binary (op : BinaryOp)
  /-- Flips the sign of the value on top. -/
  | negate
  /-- Ends the run with the value on top. -/
  | ret
deriving DecidableEq, Repr

/-- The bytes of an instruction, where a load takes the short form if its index fits. -/
def Instruction.bytes : Instruction → List UInt8
  | load index =>
    if index ≤ 255 then [Opcode.constant.toByte, UInt8.ofNat index]
    -- The lowest byte of the index comes first.
    else [Opcode.constantLong.toByte, UInt8.ofNat index, UInt8.ofNat (index >>> 8),
      UInt8.ofNat (index >>> 16)]
  | binary op => [(Opcode.binary op).toByte]
  | negate => [Opcode.negate.toByte]
  | ret => [Opcode.ret.toByte]

namespace Instruction

variable {index : Nat}

/-- The short form of a load. -/
theorem bytes_load_of_le (short : index ≤ maxShortIndex) :
    (load index).bytes = [Opcode.constant.toByte, UInt8.ofNat index] :=
  if_pos short

/-- The long form of a load. -/
theorem bytes_load_of_not_le (long : ¬ index ≤ maxShortIndex) :
    (load index).bytes = Opcode.constantLong.toByte :: (LongIndex.ofNat index).bytes :=
  if_neg long

/-- A short index is read back from its byte. -/
theorem toNat_ofNat_of_le (short : index ≤ maxShortIndex) : (UInt8.ofNat index).toNat = index := by
  -- There is room for it below the number of all bytes.
  unfold maxShortIndex at short
  rw [UInt8.toNat_ofNat', Nat.mod_eq_of_lt (by omega)]

end Instruction

/-- An instruction with the line that all of its bytes belong to. -/
structure Placed where
  /-- What is executed. -/
  instruction : Instruction
  /-- The line of the token that the instruction is written for. -/
  line : UInt32
deriving DecidableEq, Repr

namespace Placed

/-- The bytes of some instructions, one after the other. -/
def bytes (program : List Placed) : List UInt8 :=
  program.flatMap fun placed => placed.instruction.bytes

/-- The line of each byte of some instructions. -/
def lines (program : List Placed) : List UInt32 :=
  program.flatMap fun placed => List.replicate placed.instruction.bytes.length placed.line

/-- The bytes of a program are written piece by piece, with nothing in between. -/
@[simp] theorem bytes_append (first second : List Placed) :
    bytes (first ++ second) = bytes first ++ bytes second :=
  List.flatMap_append

/-- The lines stay beside their bytes when programs are joined. -/
@[simp] theorem lines_append (first second : List Placed) :
    lines (first ++ second) = lines first ++ lines second :=
  List.flatMap_append

end Placed

/--
The code of an expression in postorder, given the pool index of its first literal.

Operands come before their operator, the left one before the right one.
-/
def Expression.code (first : Nat) : Expression → List Placed
  | number literal => [⟨.load first, literal.line⟩]
  | group inside => inside.code first
  | negate sign operand => operand.code first ++ [⟨.negate, sign.line⟩]
  | binary op operator left right =>
    left.code first ++ right.code (first + left.literals.length) ++ [⟨.binary op, operator.line⟩]

/-- The values of the literals of an expression, in the order they are written. -/
def Expression.values (tree : Expression) : List Value :=
  tree.literals.map fun literal => .ofLiteral literal.lexeme

namespace Chunk

/-- A chunk after some instructions and some constants have been added to another one. -/
structure Appends (chunk : Chunk) (program : List Placed) (values : List Value)
    (later : Chunk) : Prop where
  /-- The bytes of the instructions follow those that were there. -/
  code : later.code.toList = chunk.code.toList ++ Placed.bytes program
  /-- So do the lines of the bytes. -/
  lines : later.byteLines = chunk.byteLines ++ Placed.lines program
  /-- The constants follow those that were there. -/
  constants : later.constants.toList = chunk.constants.toList ++ values

/-- What is added in two steps is added one after the other. -/
theorem Appends.trans {chunk middle later : Chunk} {first second : List Placed}
    {these those : List Value} (earlier : chunk.Appends first these middle)
    (after : middle.Appends second those later) :
    chunk.Appends (first ++ second) (these ++ those) later where
  code := by rw [after.code, earlier.code, Placed.bytes_append, List.append_assoc]
  lines := by rw [after.lines, earlier.lines, Placed.lines_append, List.append_assoc]
  constants := by rw [after.constants, earlier.constants, List.append_assoc]

/-- The index of the next constant is the number of those before it, however they were added. -/
theorem Appends.constants_size {chunk later : Chunk} {program : List Placed} {values : List Value}
    (added : chunk.Appends program values later) :
    later.constants.size = chunk.constants.size + values.length := by
  simpa using congrArg List.length added.constants

/-- Several bytes of one line are written one after the other. -/
private theorem foldl_write (bytes : List UInt8) (line : UInt32) (chunk : Chunk) :
    let later := bytes.foldl (fun written byte => written.write byte line) chunk
    later.code.toList = chunk.code.toList ++ bytes ∧
      later.byteLines = chunk.byteLines ++ List.replicate bytes.length line ∧
      later.constants = chunk.constants := by
  -- Each byte adds itself to the code and its line to the lines.
  induction bytes generalizing chunk with
  | nil => simp
  | cons byte rest ih =>
    obtain ⟨code, lines, constants⟩ := ih (chunk.write byte line)
    refine ⟨?_, ?_, ?_⟩
    · rw [List.foldl_cons, code]
      simp [write]
    · rw [List.foldl_cons, lines, byteLines_write]
      simp [List.replicate_succ]
    · rw [List.foldl_cons, constants]
      -- The pool is not touched by bytes.
      rfl

/-- Writing the bytes of an instruction in order adds the instruction. -/
private theorem foldl_write_appends (placed : Placed) (chunk : Chunk) :
    chunk.Appends [placed] []
      (placed.instruction.bytes.foldl (fun written byte => written.write byte placed.line)
        chunk) := by
  -- The list of one instruction has the bytes and the lines of that instruction.
  obtain ⟨code, lines, constants⟩ := foldl_write placed.instruction.bytes placed.line chunk
  exact ⟨by simp [code, Placed.bytes], by simp [lines, Placed.lines], by simp [constants]⟩

/-- Writing a load adds it, in the form that its index calls for. -/
theorem writeLoad_appends (chunk : Chunk) (index : Nat) (line : UInt32) :
    chunk.Appends [⟨.load index, line⟩] [] (chunk.writeLoad index line) := by
  -- Either form writes its opcode byte and then its operand bytes.
  have whole := foldl_write_appends ⟨.load index, line⟩ chunk
  unfold writeLoad
  by_cases short : index ≤ maxShortIndex
  · rw [if_pos short]
    rwa [Instruction.bytes_load_of_le short] at whole
  · rw [if_neg short]
    rwa [Instruction.bytes_load_of_not_le short] at whole

/-- Writing an opcode adds the instruction that has no bytes besides it. -/
theorem writeOpcode_appends (chunk : Chunk) {opcode : Opcode} (instruction : Instruction)
    (single : instruction.bytes = [opcode.toByte]) (line : UInt32) :
    chunk.Appends [⟨instruction, line⟩] [] (chunk.writeOpcode opcode line) := by
  -- There is one byte to be written.
  have whole := foldl_write_appends ⟨instruction, line⟩ chunk
  rwa [single] at whole

/-- A constant enters the pool alone, and its load is written apart from it. -/
theorem addConstant_appends (chunk : Chunk) (value : Value) :
    chunk.Appends [] [value] (chunk.addConstant value) :=
  -- Neither the code nor the line runs change, so both lists get nothing.
  ⟨by simp [addConstant, Placed.bytes], by simp [addConstant, byteLines, Placed.lines],
    by simp [addConstant]⟩

/-- A pool with room gives the new constant the index behind all others. -/
theorem writeConstant_of_lt {chunk : Chunk} (room : chunk.constants.size < maxConstants)
    (value : Value) (line : UInt32) :
    chunk.writeConstant value line =
      .ok ((chunk.addConstant value).writeLoad chunk.constants.size line) := by
  simp [writeConstant, room]

/-- A full pool answers with the number of constants that would have been needed. -/
theorem writeConstant_of_le {chunk : Chunk} (full : maxConstants ≤ chunk.constants.size)
    (value : Value) (line : UInt32) :
    chunk.writeConstant value line = .error (.tooManyConstants (chunk.constants.size + 1)) := by
  simp [writeConstant, Nat.not_lt_of_le full]

/-- A pool that takes a constant had room for it, and gets a load of it. -/
theorem writeConstant_eq_ok {chunk written : Chunk} {value : Value} {line : UInt32}
    (taken : chunk.writeConstant value line = .ok written) :
    chunk.constants.size < maxConstants ∧
      written = (chunk.addConstant value).writeLoad chunk.constants.size line := by
  -- Only a pool with room takes a constant.
  simp only [writeConstant] at taken
  split at taken <;> cases taken
  exact ⟨‹_›, rfl⟩

/-- The chunk with the code and the constants of an expression, which it has room for. -/
def writeExpression (chunk : Chunk) : Expression → Chunk
  | .number literal =>
    (chunk.addConstant (.ofLiteral literal.lexeme)).writeLoad chunk.constants.size literal.line
  | .group inside => chunk.writeExpression inside
  | .negate sign operand => (chunk.writeExpression operand).writeOpcode .negate sign.line
  | .binary op operator left right =>
    ((chunk.writeExpression left).writeExpression right).writeOpcode (.binary op) operator.line

/-- Writing an expression adds its code, and the values of its literals in order. -/
theorem writeExpression_appends (chunk : Chunk) (tree : Expression) :
    chunk.Appends (tree.code chunk.constants.size) tree.values (chunk.writeExpression tree) := by
  -- Each node adds the code of its operands before its own instruction.
  induction tree generalizing chunk with
  -- A literal is a constant and its load, in this order.
  | number literal => exact (chunk.addConstant_appends _).trans (writeLoad_appends _ _ _)
  | group inside ih => exact ih chunk
  | negate sign operand ih =>
    -- The sign belongs to the instruction behind the operand.
    have whole := (ih chunk).trans (writeOpcode_appends _ .negate rfl sign.line)
    simpa [Expression.code, Expression.values, Expression.literals, writeExpression] using whole
  | binary op operator left right leftIh rightIh =>
    -- The literals on the right come after all of those on the left.
    have leftAdded := leftIh chunk
    have rightAdded := rightIh (chunk.writeExpression left)
    rw [leftAdded.constants_size] at rightAdded
    have whole := (leftAdded.trans rightAdded).trans
      (writeOpcode_appends _ (.binary op) rfl operator.line)
    simpa [Expression.code, Expression.values, Expression.literals, writeExpression] using whole

/-- Writing an expression takes one constant for each of its literals. -/
theorem writeExpression_constants_size (chunk : Chunk) (tree : Expression) :
    (chunk.writeExpression tree).constants.size =
      chunk.constants.size + tree.literals.length := by
  simpa [Expression.values] using (chunk.writeExpression_appends tree).constants_size

end Chunk

end ByteCalc
