import ByteCalc.Proofs.Chunk.Assembly

/-! The instructions of an assembled chunk are read back from its listing. -/

namespace ByteCalc

/-- A text without fill characters is read back from its column. -/
theorem padLeft_inj {width : Nat} {fill : Char} {first second : String}
    (inFirst : fill ∉ first.toList) (inSecond : fill ∉ second.toList)
    (same : (padLeft width fill first).toList = (padLeft width fill second).toList) :
    first = second := by
  -- Whatever is no fill character belongs to the text.
  have left {text : String} (free : fill ∉ text.toList) :
      (padLeft width fill text).toList.filter (· ≠ fill) = text.toList := by
    -- Padding in front is all that is filtered out.
    have kept : text.toList.filter (· ≠ fill) = text.toList :=
      List.filter_eq_self.2 fun char mem => decide_eq_true fun fills => free (fills ▸ mem)
    rw [toList_padLeft, List.filter_append, kept]
    simp
  rw [← String.toList_inj, ← left inFirst, same, left inSecond]

namespace LineMark

/-- No mark has a blank. -/
theorem blank_not_mem_text (mark : LineMark) : ' ' ∉ mark.text.toList := by
  -- A mark is a number or a single sign.
  cases mark with
  | known line =>
    intro mem
    exact absurd (isDigit_of_mem_toString mem) (by decide)
  | repeated | unknown => decide

end LineMark

/-- Behind the same line, two lines with the same mark are the same. -/
theorem lineMark_inj {before : Option UInt32} {first second : UInt32}
    (same : (lineMark before first).text = (lineMark before second).text) : first = second := by
  -- The bar is no digit, so that it is never taken for a number.
  have bar (line : UInt32) : "|" ≠ toString line := by
    intro alike
    have mem : '|' ∈ (toString line).toList := alike ▸ List.mem_singleton_self _
    exact absurd (isDigit_of_mem_toString mem) (by decide)
  unfold lineMark at same
  split at same
  -- A bar tells that the line in front is repeated, for both of them.
  next known =>
    split at same
    next also => exact Option.some.inj (known.symm.trans also)
    · exact absurd same (bar second)
  · -- Without a bar, the lines are read back from their digits.
    split at same
    · exact absurd same.symm (bar first)
    · exact UInt32.toNat_inj.1 (toString_inj (congrArg String.toList same))

namespace Row

section Alike

variable {first second : Row} {opcode : Opcode}

/-- A row that looks like one with a plain entry has the same entry. -/
theorem plain_of_text (sound : first.entry.Sound) (alsoSound : second.entry.Sound)
    (same : first.text = second.text) (single : first.entry = .plain opcode) :
    second.entry = .plain opcode := by
  -- Both rows end in the mnemonic.
  have ends : first.EndsIn opcode.mnemonic := (endsIn_mnemonic_iff sound).2 single
  rw [EndsIn, same] at ends
  exact (endsIn_mnemonic_iff alsoSound).1 ends

/-- A row that looks like a load is a load, of a constant that is written in the same way. -/
theorem load_of_text {index : Nat} {constant : Option Value} (sound : first.entry.Sound)
    (alsoSound : second.entry.Sound) (same : first.text = second.text)
    (loads : first.entry = .load opcode index constant) :
    ∃ other, second.entry = .load opcode index other ∧
      Entry.constantText constant = Entry.constantText other := by
  -- Both rows end in the mnemonic, the index and the text of the constant.
  have shows : first.Shows opcode index (Entry.constantText constant) :=
    (shows_iff sound).2 ⟨constant, loads, rfl⟩
  rw [Shows, EndsIn, same] at shows
  exact (shows_iff alsoSound).1 shows

end Alike

/-- The columns in front of the entry tell what is shown for the line. -/
theorem mark_text_inj {first second : Row} (same : first.columns = second.columns) :
    first.mark.text = second.mark.text := by
  -- The first blank stands behind the offset, however wide that is.
  have behind (row : Row) : row.columns.toList.dropWhile (· ≠ ' ') =
      ' ' :: ((padLeft 4 ' ' row.mark.text).toList ++ [' ']) := by
    -- The offset is written with zeros and digits.
    have offset (char : Char) (mem : char ∈ (padLeft 4 '0' (toString row.offset)).toList) :
        char ≠ ' ' := by
      rintro rfl
      rcases mem_padLeft mem with fill | digit
      · exact absurd fill (by decide)
      · exact absurd (isDigit_of_mem_toString digit) (by decide)
    have split : row.columns.toList = (padLeft 4 '0' (toString row.offset)).toList ++
        ' ' :: ((padLeft 4 ' ' row.mark.text).toList ++ [' ']) := by
      simp [columns]
    rw [split, List.dropWhile_append_of_pos fun char mem => decide_eq_true (offset char mem)]
    rfl
  -- What stands behind the first blank is the mark and another blank.
  have cut := behind first
  rw [same, behind second] at cut
  have marks := List.append_cancel_right (List.cons.inj cut).2.symm
  exact padLeft_inj first.mark.blank_not_mem_text second.mark.blank_not_mem_text marks

end Row

namespace Written

/-- What is shown of an instruction: its mnemonic, and for a load the index and the value too. -/
def shown (written : Written) : String :=
  match written.instruction with
  | .load index => Entry.loadText (.loadOf index) index (Entry.constantText written.value)
  | .binary _ | .negate | .ret => written.instruction.opcode.mnemonic

/--
The line of a listing for an instruction, given the line of the source for the one before it.

A bar stands for the same line again.
-/
def text (before : Option UInt32) (written : Written) : String :=
  padLeft 4 '0' (toString written.offset) ++ " " ++
    padLeft 4 ' ' (if before = some written.line then "|" else toString written.line) ++ " " ++
    written.shown

/-- The lines of a listing for some instructions, given the line of the source before them. -/
def texts : Option UInt32 → List Written → List String
  | _, [] => []
  | before, written :: others => written.text before :: texts (some written.line) others

/-- The entry of an instruction has the text that is shown of it. -/
theorem text_entry (written : Written) : written.entry.text = written.shown := by
  -- A load is written in columns, and every other entry is a mnemonic.
  rw [entry, shown]
  cases written.instruction with
  | load index => exact Entry.text_load _ index written.value
  | binary | negate | ret => rfl

/-- The text of an instruction is that of its row. -/
theorem text_row (before : Option UInt32) (written : Written) :
    (written.row before).text = written.text before := by
  -- The three columns are compared one by one.
  have mark : (lineMark before written.line).text =
      if before = some written.line then "|" else toString written.line := by
    rw [lineMark, apply_ite LineMark.text]
    rfl
  rw [Row.text, row, text_entry, mark]
  rfl

/-- The rows of some instructions have their texts. -/
theorem map_text_rows (before : Option UInt32) (written : List Written) :
    (rows before written).map Row.text = texts before written := by
  -- Both lists pass the line of an instruction on to the next one.
  induction written generalizing before with
  | nil => rfl
  | cons first others ih => rw [rows, texts, List.map_cons, text_row, ih]

/-- Only loads are shown with operands. -/
theorem sound_entry (written : Written) : written.entry.Sound := by
  -- An index calls for an opcode that loads.
  rw [entry]
  cases written.instruction with
  | load index => exact Instruction.isLoad_load index
  | binary | negate | ret => trivial

/-- An entry that is a load is that of the load of its index. -/
theorem entry_eq_load {written : Written} {opcode : Opcode} {index : Nat} {constant : Option Value}
    (loads : written.entry = .load opcode index constant) : written.instruction = .load index := by
  -- All other instructions have plain entries.
  rw [entry] at loads
  cases kind : written.instruction with
  | load other =>
    rw [kind] at loads
    cases loads
    rfl
  | binary | negate | ret =>
    rw [kind] at loads
    cases loads

/-- An entry without operands is that of the instruction with the opcode. -/
theorem entry_eq_plain {written : Written} {instruction : Instruction}
    (single : written.entry = .plain instruction.opcode)
    (plain : instruction.opcode.isLoad = false) : written.instruction = instruction := by
  -- No two instructions without operands have the same opcode.
  rw [entry] at single
  cases kind : written.instruction with
  | load index =>
    rw [kind] at single
    cases single
  | binary | negate | ret =>
    rw [kind] at single
    -- The opcode tells the operator, or that it is none.
    cases instruction with
    | load index => exact absurd plain (Instruction.not_plain_load index)
    | binary | negate | ret => cases single <;> rfl

/-- Two instructions that look alike are the same, and so is what is shown of them. -/
theorem instruction_inj {before : Option UInt32} {first second : Written}
    (same : first.text before = second.text before) :
    first.instruction = second.instruction ∧ first.shown = second.shown := by
  -- The entry of one row is told from the text of the other, but for the value of a constant.
  have alike : (first.row before).text = (second.row before).text := by
    rw [text_row, text_row, same]
  -- Instructions without operands and loads are told apart by what their rows end in.
  cases plain : first.instruction.opcode.isLoad with
  | false =>
    have single : first.entry = .plain first.instruction.opcode := first.entry_of_plain plain
    have found : second.entry = .plain first.instruction.opcode :=
      Row.plain_of_text first.sound_entry second.sound_entry alike single
    refine ⟨(entry_eq_plain found plain).symm, ?_⟩
    -- The texts of both entries are the same mnemonic.
    rw [← text_entry, ← text_entry, single, found]
  | true =>
    cases kind : first.instruction with
    | load index =>
      -- A load is told by its mnemonic and its index.
      have loads : first.entry = .load (.loadOf index) index first.value := by rw [entry, kind]
      obtain ⟨constant, found, shown⟩ : ∃ constant,
          second.entry = .load (.loadOf index) index constant ∧
            Entry.constantText first.value = Entry.constantText constant :=
        Row.load_of_text first.sound_entry second.sound_entry alike loads
      refine ⟨(entry_eq_load found).symm, ?_⟩
      rw [← text_entry, ← text_entry, loads, found, Entry.text_load, Entry.text_load, shown]
    | binary | negate | ret =>
      rw [kind] at plain
      cases plain

/-- An instruction with its line is read back from its text, if the line before it is known. -/
theorem toPlaced_inj {before : Option UInt32} {first second : Written}
    (same : first.text before = second.text before) : first.toPlaced = second.toPlaced := by
  -- Without what is shown behind them, the columns are alike too.
  obtain ⟨instruction, shown⟩ := instruction_inj same
  have behind (written : Written) :
      written.text before = (written.row before).columns ++ written.shown := by
    rw [← text_row, Row.text_eq, ← text_entry]
    rfl
  have columns : (first.row before).columns = (second.row before).columns := by
    rw [behind, behind, shown] at same
    exact (String.append_left_inj _).1 same
  -- What is left of the columns is the offset and the mark for the line.
  have line : first.line = second.line := lineMark_inj (Row.mark_text_inj columns)
  have parts (written : Written) : written.toPlaced = ⟨written.instruction, written.line⟩ := rfl
  rw [parts, parts, instruction, line]

/-- All instructions are read back from their texts, one after the other. -/
theorem texts_inj {before : Option UInt32} {written others : List Written}
    (same : texts before written = texts before others) :
    written.map toPlaced = others.map toPlaced := by
  -- Each instruction gives the line to compare the next one with.
  induction written generalizing before others with
  | nil =>
    -- An instruction more on either side would be a line more.
    cases others with
    | nil => rfl
    | cons => cases same
  | cons first written ih =>
    cases others with
    | nil => cases same
    | cons second others =>
      obtain ⟨here, behind⟩ := List.cons.inj same
      -- The first line is that of the first instruction on both sides.
      have placed := toPlaced_inj here
      have line : first.line = second.line := congrArg Placed.line placed
      rw [line] at behind
      rw [List.map_cons, List.map_cons, placed, ih behind]

end Written

namespace Chunk

namespace Assembles

variable {written others : List Written} {chunk twin : Chunk}

/-- The rows of an assembled chunk have the texts of its instructions. -/
theorem map_text (assembled : empty.Assembles written chunk) :
    chunk.rows.toList.map Row.text = Written.texts none written := by
  rw [assembled.rows_eq, Written.map_text_rows]

/-- Code and lines are made from nothing but the instructions and the lines of these. -/
theorem eq_of_placed (assembled : empty.Assembles written chunk)
    (alsoAssembled : empty.Assembles others twin)
    (same : written.map Written.toPlaced = others.map Written.toPlaced) :
    chunk.code = twin.code ∧ chunk.lines = twin.lines := by
  -- The values, which may differ, are only in the pool.
  obtain ⟨values, added⟩ := assembled.appends
  obtain ⟨those, alsoAdded⟩ := alsoAssembled.appends
  -- Bytes and lines are appended to an empty chunk.
  constructor
  · rw [← Array.toList_inj, added.code, alsoAdded.code, same]
  · rw [assembled.lines_eq, alsoAssembled.lines_eq, added.lines, alsoAdded.lines, same]

end Assembles

/--
A listing has its banner and one line for each call that wrote code, in the order of the calls.

The instructions with their indices and lines are read back from it, and with them the code and
the line table.
-/
theorem listing_round_trip {written : List Written} {chunk : Chunk}
    (assembled : empty.Assembles written chunk) (name : String) :
    chunk.listing name = s!"==={name}===\n" ++
        String.ofList ((Written.texts none written).flatMap fun text => text.toList ++ ['\n']) ∧
      (∀ text ∈ Written.texts none written, '\n' ∉ text.toList) ∧
      ∀ others twin, empty.Assembles others twin → chunk.listing name = twin.listing name →
        written.map Written.toPlaced = others.map Written.toPlaced ∧
          chunk.code = twin.code ∧ chunk.lines = twin.lines := by
  refine ⟨?_, ?_, fun others twin alsoAssembled same => ?_⟩
  · -- The body is made of the texts of the rows.
    rw [listing_eq, body, ← assembled.map_text, List.flatMap_map]
  · -- No row has a line feed inside.
    rw [← assembled.map_text]
    exact List.forall_mem_map.2 fun row _ => row.lineFeed_not_mem_text
  · -- The banner is the same on both sides.
    have bodies : chunk.body = twin.body := by
      rw [listing_eq, listing_eq] at same
      exact (String.append_right_inj _).1 same
    -- The rows are told apart by their line feeds.
    have alike : Written.texts none written = Written.texts none others := by
      rw [← assembled.map_text, ← alsoAssembled.map_text, ← linesOf_body, ← linesOf_body, bodies]
    -- The lines of the listing are read one after the other.
    have placed : written.map Written.toPlaced = others.map Written.toPlaced :=
      Written.texts_inj alike
    exact ⟨placed, assembled.eq_of_placed alsoAssembled placed⟩

/-- The constants are not read back, as two of them can be written in the same way. -/
theorem listing_round_trip_nan :
    let written (value : Value) : List Written :=
      [⟨⟨.load 0, 123⟩, 0, some value⟩, ⟨⟨.negate, 123⟩, 2, none⟩, ⟨⟨.ret, 124⟩, 3, none⟩]
    ∃ chunk twin, empty.Assembles (written ⟨0x7FF8000000000000⟩) chunk ∧
      empty.Assembles (written ⟨0x7FF8000000000001⟩) twin ∧
      chunk.listing "test chunk" = "===test chunk===\n" ++
        "0000  123 OP_CONSTANT         0 NaN\n" ++ "0002    | OP_NEGATE\n" ++
        "0003  124 OP_RETURN\n" ∧
      twin.listing "test chunk" = chunk.listing "test chunk" ∧
      chunk.code = twin.code ∧ chunk.lines = twin.lines ∧ chunk.constants ≠ twin.constants := by
  intro written
  -- The value is stored first, then negated and returned.
  have assembled (value : Value) : empty.Assembles (written value)
      ((((empty.addConstant value).writeLoad 0 123).writeOpcode .negate 123).writeOpcode
        .ret 124) :=
    .writeConstant rfl (.writeOpcode rfl (.writeOpcode rfl (.nil _)))
  obtain ⟨listed, _, readBack⟩ := listing_round_trip (assembled ⟨0x7FF8000000000000⟩) "test chunk"
  obtain ⟨same, _, _⟩ := listing_round_trip (assembled ⟨0x7FF8000000000001⟩) "test chunk"
  -- The texts of the two values are the same, so that the two listings are.
  have texts : Written.texts none (written ⟨0x7FF8000000000001⟩) =
      Written.texts none (written ⟨0x7FF8000000000000⟩) := by decide +kernel
  rw [texts, ← listed] at same
  obtain ⟨_, code, lines⟩ := readBack _ _ (assembled ⟨0x7FF8000000000001⟩) same.symm
  refine ⟨_, _, assembled _, assembled _, listed.trans ?_, same, code, lines, ?_⟩
  · decide +kernel
  · -- The pools differ in the one bit.
    decide

end Chunk

end ByteCalc
