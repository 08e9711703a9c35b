import ByteCalc.Proofs.Chunk.Edit
import ByteCalc.Proofs.Machine.Execution

/-! A constant that is stored with its load can be loaded for good, whatever is added later. -/

namespace ByteCalc

namespace Chunk

/-- A chunk to which nothing has happened except that code or constants were added behind. -/
structure Extends (later chunk : Chunk) : Prop where
  /-- The code begins as it did. -/
  code : chunk.code.toList <+: later.code.toList
  /-- So does the pool. -/
  constants : chunk.constants.toList <+: later.constants.toList

namespace Extends

variable {chunk middle later : Chunk}

/-- A chunk to which nothing is added keeps what it has. -/
theorem refl (chunk : Chunk) : chunk.Extends chunk :=
  ⟨List.prefix_rfl, List.prefix_rfl⟩

/-- What is kept twice is kept. -/
theorem trans (after : later.Extends middle) (before : middle.Extends chunk) :
    later.Extends chunk :=
  ⟨before.code.trans after.code, before.constants.trans after.constants⟩

/-- A byte is written behind the code, and the pool is left alone. -/
theorem write (chunk : Chunk) (byte : UInt8) (line : UInt32) :
    (chunk.write byte line).Extends chunk where
  code := by
    rw [Chunk.write, Array.toList_push]
    exact List.prefix_append _ _
  constants := List.prefix_rfl

/-- A constant is added behind the others, and the code is left alone. -/
theorem addConstant (chunk : Chunk) (value : Value) : (chunk.addConstant value).Extends chunk where
  code := List.prefix_rfl
  constants := by
    rw [Chunk.addConstant, Array.toList_push]
    exact List.prefix_append _ _

/-- A load is written behind the code. -/
theorem writeLoad (chunk : Chunk) (index : Nat) (line : UInt32) :
    (chunk.writeLoad index line).Extends chunk := by
  -- A load in either form is added behind the code.
  have added := writeLoad_appends chunk index line
  exact ⟨added.code ▸ List.prefix_append _ _, added.constants ▸ List.prefix_append _ _⟩

/-- No edit changes the code and the constants that are there. -/
theorem apply (chunk : Chunk) (edit : Edit) : (edit.apply chunk).Extends chunk := by
  -- A constant that is stored is added to the pool first, and then its load to the code.
  cases edit with
  | write byte line => exact write chunk byte line
  | writeOpcode opcode line => exact write chunk opcode.toByte line
  | addConstant value => exact addConstant chunk value
  | writeConstant value line =>
    rw [Edit.apply_writeConstant]
    split
    · -- The constant extends the pool, and its load extends the code.
      exact (writeLoad _ _ line).trans (addConstant chunk value)
    · -- A refused constant leaves the chunk.
      exact refl chunk

/-- No edits change the code and the constants that are there. -/
theorem edited (chunk : Chunk) (edits : List Edit) : (chunk.edited edits).Extends chunk := by
  -- What the first edit leaves is kept by the others.
  induction edits generalizing chunk with
  | nil => exact refl chunk
  | cons edit edits ih => exact (ih (edit.apply chunk)).trans (apply chunk edit)

/-- A constant that is there is found at its index for good. -/
theorem constants_at (longer : later.Extends chunk) {index : Nat} {value : Value}
    (found : chunk.constants[index]? = some value) : later.constants[index]? = some value := by
  -- The index lies in the part of the pool that was there before.
  obtain ⟨added, whole⟩ := longer.constants
  rw [← Array.getElem?_toList] at found ⊢
  rw [← whole, List.getElem?_append_left (List.getElem?_eq_some_iff.1 found).1, found]

end Extends

/-- What a chunk is after a constant has been stored in it with its load. -/
structure Stored (chunk : Chunk) (value : Value) (line : UInt32) (written : Chunk) : Prop where
  /-- The constant comes behind those that were there. -/
  pool : written.constants = chunk.constants.push value
  /-- The code has two bytes more if the index fits into one, and four bytes more if it does not. -/
  code : ∃ bytes, written.code.toList = chunk.code.toList ++ bytes ∧
    bytes.length = if chunk.constants.size ≤ 255 then 2 else 4
  /-- As many times the line is recorded. -/
  lines : written.byteLines = chunk.byteLines ++
    List.replicate (if chunk.constants.size ≤ 255 then 2 else 4) line
  /-- So each of the bytes has the line, if the lines of all bytes before them are recorded. -/
  tagged : chunk.byteLines.length = chunk.code.size → ∀ offset, chunk.code.size ≤ offset →
    offset < written.code.size → written.line? offset = some line
  /-- Whatever is added later, a machine at the first byte pushes the constant and passes them. -/
  loads : ∀ edits stack, Machine.step ⟨written.edited edits, chunk.code.size, stack⟩ =
    .running ⟨written.edited edits, written.code.size, value :: stack⟩
  /-- Whatever is added later, a listing shows the index and the constant in one row for them. -/
  shown : ∀ edits, ∃ opcode,
    ((written.edited edits).row chunk.code.size).Shows opcode chunk.constants.size value.toText ∧
    ((written.edited edits).row chunk.code.size).next = written.code.size

/-- A pool with room takes the constant, and the code takes the load of its index. -/
theorem stored_of_room {chunk : Chunk} (room : chunk.constants.size < maxConstants)
    (value : Value) (line : UInt32) :
    chunk.Stored value line
      ((chunk.addConstant value).writeLoad chunk.constants.size line) := by
  let index := chunk.constants.size
  -- The load is written to the chunk that has the constant already.
  have added := (addConstant_appends chunk value).trans (writeLoad_appends _ index line)
  generalize (chunk.addConstant value).writeLoad index line = written at added
  -- Code, lines and pool are the old ones, with what belongs to the load behind them.
  have code : written.code.toList = chunk.code.toList ++ (Instruction.load index).bytes := by
    simpa [Placed.bytes] using added.code
  -- The width of the load is decided by its index, and with it the number of bytes.
  have count : (Instruction.load index).bytes.length = if index ≤ 255 then 2 else 4 := by
    rw [Instruction.length_load, Opcode.loadOf, maxShortIndex, apply_ite Opcode.width]
    rfl
  have lines : written.byteLines =
      chunk.byteLines ++ List.replicate (if index ≤ 255 then 2 else 4) line := by
    rw [← count]
    simpa [Placed.lines] using added.lines
  have size : written.code.size = chunk.code.size + (Opcode.loadOf index).width := by
    rw [← Array.length_toList, code, List.length_append, Array.length_toList,
      Instruction.length_load]
  -- The load adds nothing to the pool, so that the constant is its last entry.
  have pool : written.constants = chunk.constants.push value := by
    rw [← Array.toList_inj, Array.toList_push]
    exact added.constants
  have stored : written.constants[index]? = some value := by
    rw [pool, Array.getElem?_push_size]
  -- The bytes of the load stay where they are, and so does the constant.
  have entry (edits : List Edit) : (written.edited edits).entry chunk.code.size =
      .load (.loadOf index) index (some value) := by
    -- The edits only lengthen the code and the pool that the constant has been stored in.
    have longer := Extends.edited written edits
    obtain ⟨more, whole⟩ := longer.code
    rw [entry_of_load room, longer.constants_at stored]
    rw [← whole, code, List.append_assoc, List.drop_left' Array.length_toList]
    exact List.prefix_append _ _
  refine ⟨pool, ⟨_, code, count⟩, lines, fun inStep offset before behind => ?_,
    fun edits stack => ?_, fun edits => ⟨.loadOf index, ?_, ?_⟩⟩
  · -- The line is the one that is repeated behind the lines of the code before.
    rw [line?_eq, lines, List.getElem?_append_right (inStep ▸ before),
      List.getElem?_replicate_of_lt]
    rw [inStep, ← count, Instruction.length_load]
    omega
  · -- The step reads the load that stands there, and finds its constant.
    rw [Machine.step_eq_execute, entry, size]
    simp only [Machine.execute, Machine.load, (Extends.edited written edits).constants_at stored]
  · -- The row shows the opcode, the index and the constant of the load that stands there.
    have sound := ((written.edited edits).entry_stands chunk.code.size).sound
    exact (Row.shows_iff sound).2 ⟨some value, entry edits, rfl⟩
  · rw [row, entry, size]
    rfl

/--
A constant is stored with its load as a whole, or not at all.

A full pool refuses it, and nothing has changed. In all other cases the constant gets the size of the
pool as its index, and its load stays valid whatever is added later.
-/
theorem storeConstant_atomic (chunk : Chunk) (value : Value) (line : UInt32) :
    (maxConstants ≤ chunk.constants.size →
      chunk.storeConstant value line =
        (.error (.tooManyConstants (chunk.constants.size + 1)), chunk)) ∧
    (chunk.constants.size < maxConstants →
      (chunk.storeConstant value line).1 = .ok chunk.constants.size ∧
        chunk.Stored value line (chunk.storeConstant value line).2) := by
  refine ⟨fun full => ?_, fun room => ?_⟩
  · -- A full pool is noticed before anything is added.
    rw [storeConstant, writeConstant, if_neg (Nat.not_lt_of_le full)]
  · have stored := stored_of_room room value line
    rw [storeConstant, writeConstant, if_pos room]
    refine ⟨?_, stored⟩
    -- The index is read off the pool after the constant has been added.
    show Except.ok (lastIndex _) = _
    rw [lastIndex, stored.pool, Array.size_push, Nat.add_sub_cancel]

/-- The constant behind 256 others takes a long load, and a full pool takes no constant. -/
theorem storeConstant_atomic_boundaries :
    let chunk : Chunk := { constants := Array.replicate 256 ⟨0⟩ }
    let full : Chunk := { constants := Array.replicate maxConstants ⟨0⟩ }
    let written := (chunk.storeConstant ⟨1⟩ 7).2
    let later := written.edited [.writeOpcode .ret 8, .addConstant ⟨2⟩]
    (chunk.storeConstant ⟨1⟩ 7).1 = .ok 256 ∧ written.code.size = 4 ∧
      Machine.step ⟨later, 0, []⟩ = .running ⟨later, written.code.size, [⟨1⟩]⟩ ∧
      full.storeConstant ⟨1⟩ 7 = (.error (.tooManyConstants 0x1000001), full) := by
  intro chunk full written later
  -- The pools are too large to be computed, so their sizes are read off how they are made.
  have size : chunk.constants.size = 256 := Array.size_replicate
  have fullSize : full.constants.size = maxConstants := Array.size_replicate
  obtain ⟨index, stored⟩ := (storeConstant_atomic chunk ⟨1⟩ 7).2 (size ▸ by decide)
  have refused := (storeConstant_atomic full ⟨1⟩ 7).1 (Nat.le_of_eq fullSize.symm)
  obtain ⟨bytes, code, count⟩ := stored.code
  rw [size] at index count
  rw [fullSize] at refused
  refine ⟨index, ?_, stored.loads _ _, refused⟩
  have empty : chunk.code.toList = [] := rfl
  rw [empty, List.nil_append] at code
  rw [← Array.length_toList, code, count]
  -- The load of the index 256 has its opcode and three bytes for the index.
  rfl

end Chunk

end ByteCalc
