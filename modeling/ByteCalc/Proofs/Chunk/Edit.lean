import ByteCalc.Chunk

/-! Chunks as they are built: one edit after the other, each with the line that it is made for. -/

namespace ByteCalc

/-- A way to add to a chunk. -/
inductive Edit where
  /-- Writes a byte of any kind. -/
  | write (byte : UInt8) (line : UInt32)
  /-- Writes an opcode byte. -/
  | writeOpcode (opcode : Opcode) (line : UInt32)
  /-- Adds a constant, but no code. -/
  | addConstant (value : Value)
  /-- Adds a constant and the instruction that loads it. -/
  | writeConstant (value : Value) (line : UInt32)
deriving DecidableEq, Repr

namespace Edit

/-- The chunk after an edit, which is the same chunk if the edit is refused. -/
def apply (chunk : Chunk) : Edit → Chunk
  | write byte line => chunk.write byte line
  | writeOpcode opcode line => chunk.writeOpcode opcode line
  | addConstant value => chunk.addConstant value
  | writeConstant value line =>
    match chunk.writeConstant value line with
    | .ok written => written
    | .error _ => chunk

/-- The line that an edit is made for, if it may write code. -/
def line? : Edit → Option UInt32
  | write _ line | writeOpcode _ line | writeConstant _ line => some line
  | addConstant _ => none

/-- The line of an edit, once for each byte that the edit adds to a chunk. -/
def byteLines (chunk : Chunk) (edit : Edit) : List UInt32 :=
  let added := (edit.apply chunk).code.size - chunk.code.size
  match edit.line? with
  | some line => List.replicate added line
  | none => []

end Edit

namespace Chunk

/-- The chunk after some edits, in order. -/
def edited (chunk : Chunk) (edits : List Edit) : Chunk :=
  edits.foldl Edit.apply chunk

/-- The lines of all bytes that some edits add to a chunk. -/
def editLines (chunk : Chunk) : List Edit → List UInt32
  | [] => []
  | edit :: later => edit.byteLines chunk ++ (edit.apply chunk).editLines later

/-- A chunk after some bytes of one line have been written to another one. -/
structure Writes (chunk : Chunk) (count : Nat) (line : UInt32) (later : Chunk) : Prop where
  /-- The code has so many bytes more. -/
  size : later.code.size = chunk.code.size + count
  /-- The line table has been extended for each of them. -/
  lines : later.lines = (List.replicate count line).foldl LineRun.extend chunk.lines

namespace Writes

variable {chunk : Chunk} {line : UInt32}

/-- A single byte is written with its line. -/
theorem write (chunk : Chunk) (byte : UInt8) (line : UInt32) :
    chunk.Writes 1 line (chunk.write byte line) :=
  ⟨Array.size_push _, rfl⟩

/-- Bytes of one line can be written in two goes. -/
theorem trans {middle later : Chunk} {first second : Nat} (earlier : chunk.Writes first line middle)
    (after : middle.Writes second line later) : chunk.Writes (first + second) line later where
  size := by rw [after.size, earlier.size, Nat.add_assoc]
  lines := by
    -- Extending by a run of the line, and then by another, is extending by both at once.
    rw [after.lines, earlier.lines, ← List.foldl_append, List.replicate_append_replicate]

/-- Bytes of one line are written one after the other. -/
theorem foldl_write (bytes : List UInt8) (chunk : Chunk) (line : UInt32) :
    chunk.Writes bytes.length line
      (bytes.foldl (fun written byte => written.write byte line) chunk) := by
  -- The first byte is written to the chunk, and the others to what it has become.
  induction bytes generalizing chunk with
  | nil => exact ⟨rfl, rfl⟩
  | cons byte bytes ih =>
    -- The byte in front is counted first, and the others behind it.
    rw [List.length_cons, Nat.add_comm]
    exact (write chunk byte line).trans (ih _)

/-- A load of either form is written for one line. -/
theorem writeLoad (chunk : Chunk) (index : Nat) (line : UInt32) :
    ∃ count, chunk.Writes count line (chunk.writeLoad index line) := by
  -- The opcode byte comes first, and then one operand byte or three.
  unfold Chunk.writeLoad
  split
  · exact ⟨_, (write _ _ _).trans (write _ _ _)⟩
  · exact ⟨_, (write _ _ _).trans (foldl_write _ _ _)⟩

end Writes

end Chunk

namespace Edit

/-- A constant is refused only if the pool is full. -/
theorem apply_writeConstant (chunk : Chunk) (value : Value) (line : UInt32) :
    (writeConstant value line).apply chunk =
      if chunk.constants.size < maxConstants then
        (chunk.addConstant value).writeLoad chunk.constants.size line
      else chunk := by
  -- Whether there is room is all that the attempt depends on.
  by_cases room : chunk.constants.size < maxConstants
  · simp only [apply, Chunk.writeConstant, if_pos room]
  · simp only [apply, Chunk.writeConstant, if_neg room]

/-- An edit adds bytes of its own line to a chunk, and nothing else to its line table. -/
theorem apply_writes (chunk : Chunk) (edit : Edit) :
    ∃ count line, chunk.Writes count line (edit.apply chunk) ∧
      edit.byteLines chunk = List.replicate count line := by
  -- The number of bytes that are written is read off the sizes.
  have listed {count : Nat} {line : UInt32} (own : edit.line? = some line)
      (written : chunk.Writes count line (edit.apply chunk)) :
      edit.byteLines chunk = List.replicate count line := by
    rw [byteLines, own, written.size, Nat.add_sub_cancel_left]
  cases edit with
  -- An opcode or a plain byte is one byte, with the line that is passed with it.
  | write byte line =>
    have written := Chunk.Writes.write chunk byte line
    exact ⟨_, _, written, listed rfl written⟩
  | writeOpcode opcode line =>
    have written := Chunk.Writes.write chunk opcode.toByte line
    exact ⟨_, _, written, listed rfl written⟩
  -- A constant alone writes no byte at all, of whatever line.
  | addConstant value => exact ⟨0, 0, ⟨rfl, rfl⟩, rfl⟩
  | writeConstant value line =>
    -- How many bytes a load has is not needed here, but only that one line is repeated.
    obtain ⟨count, written⟩ :
        ∃ count, chunk.Writes count line ((writeConstant value line).apply chunk) := by
      rw [apply_writeConstant]
      split
      · -- The constant itself is no code.
        obtain ⟨count, written⟩ := Chunk.Writes.writeLoad (chunk.addConstant value) _ line
        exact ⟨count, written.size, written.lines⟩
      · -- A refused constant leaves the chunk, so that nothing is written for it.
        exact ⟨0, rfl, rfl⟩
    exact ⟨_, _, written, listed rfl written⟩

end Edit

namespace Chunk

/-- The code grows by one byte for each of the lines. -/
theorem edited_code_size (chunk : Chunk) (edits : List Edit) :
    (chunk.edited edits).code.size = chunk.code.size + (chunk.editLines edits).length := by
  -- The bytes of the first edit come on top of those that were there.
  induction edits generalizing chunk with
  | nil => rfl
  | cons edit edits ih =>
    obtain ⟨count, line, written, listed⟩ := edit.apply_writes chunk
    have later := ih (edit.apply chunk)
    -- What comes later is counted from the chunk that the first edit leaves.
    rw [written.size] at later
    rw [editLines, listed, List.length_append, List.length_replicate, ← Nat.add_assoc]
    exact later

/-- The line table is extended by the lines in the order in which they are passed. -/
theorem edited_lines (chunk : Chunk) (edits : List Edit) :
    (chunk.edited edits).lines = (chunk.editLines edits).foldl LineRun.extend chunk.lines := by
  -- The lines of the first edit are in the table before those of the others.
  induction edits generalizing chunk with
  | nil => rfl
  | cons edit edits ih =>
    obtain ⟨count, line, written, listed⟩ := edit.apply_writes chunk
    -- What comes later extends the table that the first edit leaves.
    have later := ih (edit.apply chunk)
    rw [written.lines] at later
    rw [editLines, listed, List.foldl_append]
    exact later

end Chunk

end ByteCalc
