import ByteCalc.Proofs.Chunk.Canonical
import ByteCalc.Proofs.Chunk.Lines
import ByteCalc.Proofs.Machine.Execution

/-! A chunk that is written instruction by instruction is listed in one row for each of them. -/

namespace ByteCalc

namespace Instruction

/-- The opcode of an instruction, which for a load depends on the size of its index. -/
def opcode : Instruction → Opcode
  | load index => .loadOf index
  | binary op => .binary op
  | negate => .negate
  | ret => .ret

/-- The opcode of a load is one that loads. -/
theorem isLoad_load (index : Nat) : (load index).opcode.isLoad := by
  -- Both opcodes that the index may call for are loads.
  rw [opcode, Opcode.loadOf]
  split <;> rfl

/-- A load is never an instruction without operands. -/
theorem not_plain_load (index : Nat) : ¬ (load index).opcode.isLoad = false := by
  rw [isLoad_load]
  decide

/-- What has no operand bytes is written as its opcode alone. -/
theorem bytes_of_plain {instruction : Instruction} (plain : instruction.opcode.isLoad = false) :
    instruction.bytes = [instruction.opcode.toByte] := by
  -- A load is never without operands.
  cases instruction with
  | load index => exact absurd plain (not_plain_load index)
  | binary | negate | ret => rfl

end Instruction

/-- An instruction as it was written to a chunk. -/
structure Written extends Placed where
  /-- The offset at which it was started to be written. -/
  offset : Nat
  /-- The value that was stored in the pool for it, if it is a load. -/
  value : Option Value
deriving DecidableEq, Repr

/--
One chunk becomes another one by calls that succeed, in order, with what they write as code.

Opcodes without operands are written, constants are stored with their loads, and between them
constants may be added to the pool alone.
-/
inductive Chunk.Assembles : Chunk → List Written → Chunk → Prop
  /-- Without any calls the chunk stays as it is. -/
  | nil (chunk : Chunk) : Assembles chunk [] chunk
  /-- A constant that is only added is no code. -/
  | addConstant {chunk later : Chunk} {value : Value} {written : List Written}
      (behind : (chunk.addConstant value).Assembles written later) : Assembles chunk written later
  /-- An opcode is written for a line. -/
  | writeOpcode {chunk later : Chunk} {instruction : Instruction} {line : UInt32}
      {written : List Written} (plain : instruction.opcode.isLoad = false)
      (behind : (chunk.writeOpcode instruction.opcode line).Assembles written later) :
      Assembles chunk (⟨⟨instruction, line⟩, chunk.code.size, none⟩ :: written) later
  /-- A constant is stored for a line, with the load of the index that the call gives back. -/
  | writeConstant {chunk middle later : Chunk} {value : Value} {line : UInt32} {index : Nat}
      {written : List Written} (stored : chunk.storeConstant value line = (.ok index, middle))
      (behind : middle.Assembles written later) :
      Assembles chunk (⟨⟨.load index, line⟩, chunk.code.size, some value⟩ :: written) later

namespace Chunk

variable {chunk middle later : Chunk} {written : List Written}

/-- A constant is stored where the pool has room, at the index that was its size. -/
theorem storeConstant_eq_ok {value : Value} {line : UInt32} {index : Nat}
    (stored : chunk.storeConstant value line = (.ok index, middle)) :
    chunk.constants.size < maxConstants ∧ index = chunk.constants.size ∧
      middle = (chunk.addConstant value).writeLoad chunk.constants.size line := by
  -- Without room there is an error, and no index.
  unfold storeConstant at stored
  split at stored
  next written taken =>
    obtain ⟨room, rfl⟩ := writeConstant_eq_ok taken
    -- The index is read off the chunk that has been written.
    obtain ⟨rfl, rfl⟩ : lastIndex _ = index ∧ _ = middle := by
      simpa only [Prod.mk.injEq, Except.ok.injEq] using stored
    -- The load is code, so that the pool ends with the constant still.
    have size : ((chunk.addConstant value).writeLoad chunk.constants.size line).constants.size =
        (chunk.addConstant value).constants.size := (writeLoad_appends _ _ _).constants_size
    refine ⟨room, ?_, rfl⟩
    rw [lastIndex, size, addConstant, Array.size_push, Nat.add_sub_cancel]
  next => cases stored

/-- Storing a constant adds its load to the code, and the constant to the pool. -/
theorem storeConstant_appends {value : Value} {line : UInt32} {index : Nat}
    (stored : chunk.storeConstant value line = (.ok index, middle)) :
    chunk.Appends [⟨.load index, line⟩] [value] middle := by
  -- The constant is added first, so that its load can have the index.
  obtain ⟨_, rfl, rfl⟩ := storeConstant_eq_ok stored
  exact (addConstant_appends chunk value).trans (writeLoad_appends _ _ line)

/-- The code that is assembled is that of the instructions, one behind the other. -/
theorem Assembles.appends (assembled : chunk.Assembles written later) :
    ∃ values, chunk.Appends (written.map Written.toPlaced) values later := by
  -- What the first call adds stands in front of what the others add.
  induction assembled with
  -- No code, no lines and no constants are added.
  | nil chunk => exact ⟨[], by simp [Placed.bytes], by simp [Placed.lines], by simp⟩
  | addConstant _ ih =>
    obtain ⟨values, added⟩ := ih
    -- A constant adds to the pool what the other calls add theirs behind.
    exact ⟨_, (addConstant_appends _ _).trans added⟩
  | @writeOpcode chunk later instruction line written plain _ ih =>
    obtain ⟨values, added⟩ := ih
    -- The opcode byte is all that is written.
    have wrote := chunk.writeOpcode_appends instruction (Instruction.bytes_of_plain plain) line
    exact ⟨_, wrote.trans added⟩
  | writeConstant stored _ ih =>
    obtain ⟨values, added⟩ := ih
    exact ⟨_, (storeConstant_appends stored).trans added⟩

/-- What is assembled could also be made by edits, none of which is refused. -/
theorem Assembles.exists_edits (assembled : chunk.Assembles written later) :
    ∃ edits, later = chunk.edited edits := by
  -- Each call is an edit of its own, in the same order.
  induction assembled with
  | nil chunk => exact ⟨[], rfl⟩
  | @addConstant chunk later value _ _ ih =>
    obtain ⟨edits, rfl⟩ := ih
    exact ⟨.addConstant value :: edits, rfl⟩
  | @writeOpcode chunk later instruction line _ _ _ ih =>
    obtain ⟨edits, rfl⟩ := ih
    exact ⟨.writeOpcode instruction.opcode line :: edits, rfl⟩
  | @writeConstant chunk middle later value line _ _ stored _ ih =>
    obtain ⟨edits, rfl⟩ := ih
    -- The edit stores the constant because the pool has room for it.
    obtain ⟨room, _, rfl⟩ := storeConstant_eq_ok stored
    have first : (Edit.writeConstant value line).apply chunk = _ :=
      (Edit.apply_writeConstant chunk value line).trans (if_pos room)
    refine ⟨.writeConstant value line :: edits, ?_⟩
    show _ = ((Edit.writeConstant value line).apply chunk).edited edits
    rw [first]

/-- The line table of an assembled chunk is made from the lines of its bytes. -/
theorem Assembles.lines_eq (assembled : empty.Assembles written chunk) :
    chunk.lines = chunk.byteLines.foldl LineRun.extend #[] := by
  -- This is so for whatever edits make of an empty chunk.
  obtain ⟨edits, rfl⟩ := assembled.exists_edits
  rw [edited_lines, byteLines_edited]
  rfl

/-- Each byte that is added has a line, if this is so for the bytes before it. -/
theorem Appends.inStep {program : List Placed} {values : List Value}
    (added : chunk.Appends program values later) (inStep : chunk.byteLines.length = chunk.code.size) :
    later.byteLines.length = later.code.size := by
  -- An instruction adds as many lines as it adds bytes.
  have size : later.code.size = chunk.code.size + (Placed.bytes program).length := by
    simpa using congrArg List.length added.code
  rw [added.lines, List.length_append, Placed.length_lines, inStep, size]

/-- Behind an instruction, the last byte has the line of that. -/
theorem Appends.getLast?_byteLines {placed : Placed} {values : List Value}
    (wrote : chunk.Appends [placed] values later) :
    later.byteLines.getLast? = some placed.line := by
  -- No instruction is without bytes.
  obtain ⟨count, size⟩ := Nat.exists_eq_add_one.2 placed.instruction.bytes_length_pos
  rw [wrote.lines, Placed.lines, List.flatMap_singleton, size, List.replicate_succ',
    ← List.append_assoc, List.getLast?_concat]

/-- What is added to a chunk stands behind the code that was there. -/
theorem Appends.holds {program : List Placed} {values : List Value}
    (added : chunk.Appends program values later) (inStep : chunk.byteLines.length = chunk.code.size) :
    later.Holds chunk.code.size program where
  code := by
    -- Nothing else stands behind it.
    refine ⟨[], ?_⟩
    rw [List.append_nil, added.code, List.drop_left' Array.length_toList]
  lines := by
    refine ⟨[], ?_⟩
    rw [List.append_nil, added.lines, List.drop_left' inStep]

/-- Where an instruction without operands stands, a listing shows its opcode. -/
theorem entry_of_plain {offset : Nat} {instruction : Instruction}
    (plain : instruction.opcode.isLoad = false)
    (opened : chunk.code[offset]? = some instruction.opcode.toByte) :
    chunk.entry offset = .plain instruction.opcode := by
  -- The byte is known, and no operands are looked for behind it.
  cases instruction with
  | load index => exact absurd plain (Instruction.not_plain_load index)
  | binary | negate | ret =>
    -- The byte is decoded to its own opcode.
    rw [Instruction.opcode] at opened ⊢
    simp only [entry, opened, Opcode.ofByte?_toByte]

end Chunk

/-- What a listing shows for the line of an instruction, given the line of the one before it. -/
def lineMark (before : Option UInt32) (line : UInt32) : LineMark :=
  if before = some line then .repeated else .known line

/-- A byte is marked by its line, and by that of the last byte in front of it. -/
theorem Chunk.mark_eq {chunk : Chunk} {offset : Nat} {line : UInt32}
    (own : chunk.line? offset = some line) :
    chunk.mark offset = lineMark (chunk.byteLines.take offset).getLast? line := by
  cases offset with
  | zero =>
    -- There is no byte in front of the first one.
    simp only [mark, Nat.lt_irrefl, false_and, if_false, own, lineMark, List.take_zero,
      List.getLast?_nil, reduceCtorEq]
  | succ offset =>
    -- The byte in front of a later one is the last of those in front of it.
    have inside : offset < chunk.byteLines.length := by
      rw [line?_eq] at own
      exact Nat.lt_of_succ_lt (List.getElem?_eq_some_iff.1 own).1
    have before : (chunk.byteLines.take (offset + 1)).getLast? = chunk.line? offset := by
      rw [line?_eq, List.take_succ_eq_append_getElem inside, List.getLast?_concat,
        List.getElem?_eq_getElem inside]
    -- The bar is shown exactly if that byte has the same line.
    simp only [mark, own, before, lineMark, Nat.add_sub_cancel, Nat.succ_pos, true_and,
      eq_comm (a := some line)]

namespace Written

/-- What a listing shows of an instruction besides its offset and its line. -/
def entry (written : Written) : Entry :=
  match written.instruction with
  | .load index => .load (.loadOf index) index written.value
  | .binary _ | .negate | .ret => .plain written.instruction.opcode

/-- An instruction without operands is shown as its opcode. -/
theorem entry_of_plain (written : Written) (plain : written.instruction.opcode.isLoad = false) :
    written.entry = .plain written.instruction.opcode := by
  -- Only the entry of a load shows more.
  rw [entry]
  cases kind : written.instruction with
  | load index => exact absurd (kind ▸ plain) (Instruction.not_plain_load index)
  | binary | negate | ret => rfl

/-- The row of an instruction, given the line of the one before it. -/
def row (before : Option UInt32) (written : Written) : Row :=
  ⟨written.offset, lineMark before written.line, written.entry,
    written.offset + written.instruction.bytes.length⟩

/-- The rows of some instructions, given the line of the one before them. -/
def rows : Option UInt32 → List Written → List Row
  | _, [] => []
  | before, written :: others => written.row before :: rows (some written.line) others

end Written

namespace Chunk

variable {chunk middle later : Chunk}

/-- An instruction that was written is the first row of a listing that starts with it. -/
theorem rowsFrom_written (written : Written) {program : List Placed} {these those : List Value}
    (wrote : chunk.Appends [written.toPlaced] these middle)
    (added : middle.Appends program those later)
    (inStep : chunk.byteLines.length = chunk.code.size) (starts : written.offset = chunk.code.size)
    (shown : later.entry chunk.code.size = written.entry) :
    (later.rowsFrom chunk.code.size #[]).toList =
      written.row chunk.byteLines.getLast? :: (later.rowsFrom middle.code.size #[]).toList := by
  -- The instruction and those behind it are added to the chunk at once.
  have whole : chunk.Appends (written.toPlaced :: program) (these ++ those) later :=
    wrote.trans added
  have size : middle.code.size = chunk.code.size + written.instruction.bytes.length := by
    have bytes := congrArg List.length wrote.code
    simpa [Placed.bytes] using bytes
  -- An instruction has a byte, so that the offset lies inside the code.
  have inside : chunk.code.size < later.code.size := by
    have bytes := congrArg List.length added.code
    have some := written.instruction.bytes_length_pos
    simp only [Array.length_toList, List.length_append] at bytes
    omega
  -- The line of the instruction is compared with that of the last byte in front of it.
  have held : later.Holds chunk.code.size ([written.toPlaced] ++ program) := whole.holds inStep
  have mark : later.mark chunk.code.size = lineMark chunk.byteLines.getLast? written.line := by
    rw [mark_eq held.left.line_at, whole.lines, List.take_left' inStep]
  -- The row goes on for the bytes of the instruction, by its opcode.
  have next : later.nextOffset chunk.code.size written.entry = middle.code.size := by
    rw [size, Written.entry]
    cases written.instruction with
    | load index => rw [Instruction.length_load]; rfl
    | binary | negate | ret => rfl
  have same : later.row chunk.code.size = written.row chunk.byteLines.getLast? := by
    rw [row, shown, mark, next, size, Written.row, starts]
  -- The walk goes on where the instruction ends.
  rw [rowsFrom_inside inside, same]
  simp only [Written.row, starts, size]

/-- The rows of the code that is assembled are those of the instructions, in order. -/
theorem Assembles.rowsFrom_eq {written : List Written} (assembled : chunk.Assembles written later)
    (inStep : chunk.byteLines.length = chunk.code.size) :
    (later.rowsFrom chunk.code.size #[]).toList =
      Written.rows chunk.byteLines.getLast? written := by
  -- Behind each instruction, its own line is the one to compare with.
  induction assembled with
  -- Nothing is written, so that no row is left.
  | nil chunk => exact rowsFrom_outside (Nat.le_refl _)
  -- A constant moves neither the code nor the lines.
  | addConstant _ ih => exact ih inStep
  | @writeOpcode chunk later instruction line written plain behind ih =>
    have wrote := chunk.writeOpcode_appends instruction (Instruction.bytes_of_plain plain) line
    obtain ⟨values, added⟩ := behind.appends
    -- The opcode byte is the first of what was added.
    have opened : later.code[chunk.code.size]? = some instruction.opcode.toByte := by
      refine ((wrote.trans added).holds inStep).left.code_at 0 ?_
      rw [Instruction.bytes_of_plain plain]
      rfl
    let own : Written := ⟨⟨instruction, line⟩, chunk.code.size, none⟩
    have shown : later.entry chunk.code.size = own.entry :=
      (entry_of_plain plain opened).trans (own.entry_of_plain plain).symm
    rw [rowsFrom_written own wrote added inStep rfl shown, ih (wrote.inStep inStep),
      wrote.getLast?_byteLines]
    rfl
  | @writeConstant chunk middle later value line index written stored behind ih =>
    have wrote := storeConstant_appends stored
    obtain ⟨room, rfl, _⟩ := storeConstant_eq_ok stored
    obtain ⟨values, added⟩ := behind.appends
    have whole := wrote.trans added
    -- Whatever was added behind it, the constant is still the one at its index.
    have pooled : later.constants[chunk.constants.size]? = some value := by
      rw [← Array.getElem?_toList, whole.constants,
        List.getElem?_append_right (Nat.le_of_eq Array.length_toList), Array.length_toList,
        Nat.sub_self]
      rfl
    -- The bytes of the load are found where the chunk ended before.
    have stands := (whole.holds inStep).left.code
    rw [Placed.bytes, List.flatMap_singleton] at stands
    let own : Written := ⟨⟨.load chunk.constants.size, line⟩, chunk.code.size, some value⟩
    have shown : later.entry chunk.code.size = own.entry := by
      rw [entry_of_load room stands, pooled]
      rfl
    rw [rowsFrom_written own wrote added inStep rfl shown, ih (wrote.inStep inStep),
      wrote.getLast?_byteLines]
    rfl

/-- A chunk that is assembled from nothing has the rows of its instructions. -/
theorem Assembles.rows_eq {written : List Written} (assembled : empty.Assembles written chunk) :
    chunk.rows.toList = Written.rows none written :=
  -- The first row behind nothing has no line in front of it.
  assembled.rowsFrom_eq rfl

end Chunk

end ByteCalc
