import ByteCalc.Proofs.Chunk.Lines
import ByteCalc.Proofs.Interpretation
import ByteCalc.Proofs.Machine.Trail
import ByteCalc.Record

/-! The trace of a run shows the first lines of the listing of its chunk. -/

namespace ByteCalc

namespace Record

/-- Whether a record shows an instruction, which starts with the digits of its offset. -/
def showsInstruction (record : Record) : Bool :=
  record.detail = .trace && record.message.toList.head?.any Char.isDigit

/-- Whether a record shows a stack, which is set off by blanks. -/
def showsStack (record : Record) : Bool :=
  record.detail = .trace && record.message.toList.head? = some ' '

end Record

/-- The line of an instruction starts with a digit. -/
theorem Row.isDigit_head (row : Row) : row.text.toList.head?.any Char.isDigit := by
  -- The column of the offset holds digits and zeros alone, and at least one of them.
  have digits : ∀ char ∈ (padLeft 4 '0' (toString row.offset)).toList, char.isDigit := by
    intro char mem
    rcases mem_padLeft mem with rfl | digit
    · rfl
    · exact isDigit_of_mem_toString digit
  have some : (padLeft 4 '0' (toString row.offset)).toList ≠ [] := by
    rw [toList_padLeft]
    exact List.append_ne_nil_of_right_ne_nil _ (toString_ne_nil _)
  obtain ⟨first, more, spelled⟩ := List.exists_cons_of_ne_nil some
  rw [text_eq, columns, String.toList_append, String.toList_append, String.toList_append,
    String.toList_append, spelled]
  exact digits first (spelled ▸ List.mem_cons_self)

namespace Machine

section Records

/-- Whether there is a byte under the cursor to fetch. -/
def hasByte (machine : Machine) : Bool :=
  machine.cursor < machine.chunk.code.size

/-- The record of the values on the stack. -/
def stackRecord (machine : Machine) : Record :=
  ⟨.trace, machine.stackText⟩

/-- The record of the instruction under the cursor, which is the text of its row. -/
def rowRecord (machine : Machine) : Record :=
  ⟨.trace, (machine.chunk.row machine.cursor).text⟩

/-- The text of a stack is set off by a blank, even if nothing is on the stack. -/
theorem stackText_head (machine : Machine) : machine.stackText.toList.head? = some ' ' := by
  have kept (values : List Value) (front : String) (start : front.toList.head? = some ' ') :
      (values.foldl (fun text value => text ++ "[ " ++ value.toText ++ " ]") front).toList.head? =
        some ' ' := by
    -- The values are added behind the front.
    induction values generalizing front with
    | nil => exact start
    | cons value values ih => exact ih _ (by simp [start])
  exact kept _ _ rfl

/-- The record of a stack is taken for one. -/
@[simp] theorem showsStack_stackRecord (machine : Machine) :
    machine.stackRecord.showsStack = true := by
  simp [stackRecord, Record.showsStack, stackText_head]

/-- The record of a stack is not taken for that of an instruction. -/
@[simp] theorem showsInstruction_stackRecord (machine : Machine) :
    machine.stackRecord.showsInstruction = false := by
  simp [stackRecord, Record.showsInstruction, stackText_head]

/-- The record of a row is taken for that of an instruction. -/
@[simp] theorem showsInstruction_rowRecord (machine : Machine) :
    machine.rowRecord.showsInstruction = true := by
  simp [rowRecord, Record.showsInstruction, Row.isDigit_head]

/-- The record of a row is not taken for that of a stack. -/
@[simp] theorem showsStack_rowRecord (machine : Machine) :
    machine.rowRecord.showsStack = false := by
  -- A row starts with a digit, and a stack with a blank.
  have digit := (machine.chunk.row machine.cursor).isDigit_head
  have other : (machine.chunk.row machine.cursor).text.toList.head? ≠ some ' ' := fun blank => by
    simp [blank] at digit
  simp [rowRecord, Record.showsStack, other]

end Records

variable {machine last : Machine} {states : List Machine} {outcome : Outcome}

namespace Trail

/-- The rows of the code ahead are those of the instructions that were fetched, and those behind. -/
theorem rows_eq (trail : machine.Trail states outcome last) :
    (machine.chunk.rowsFrom machine.cursor #[]).toList =
      (states.filter hasByte).map (fun state => state.chunk.row state.cursor) ++
        (machine.chunk.rowsFrom last.cursor #[]).toList := by
  -- Each step takes the cursor to the next row.
  induction trail with
  | @stopped machine last outcome stepped =>
    by_cases inside : machine.cursor < machine.chunk.code.size
    · -- The row at the cursor is the one that was fetched, and the step ends where it ends.
      have moved := step_cursor inside
      rw [stepped] at moved
      have fetched : [machine].filter hasByte = [machine] := by simp [hasByte, inside]
      rw [Chunk.rowsFrom_inside inside, fetched, ← moved]
      rfl
    · -- Nothing is fetched, and nothing moves.
      have outside := Nat.le_of_not_lt inside
      have same : last.cursor = machine.cursor := by
        rw [step_outside outside] at stepped
        cases stepped
        rfl
      have fetched : [machine].filter hasByte = [] := by simp [hasByte, outside]
      rw [fetched, same]
      rfl
  | @running machine later last states outcome stepped onward ih =>
    -- The step has not stopped, so that there was a byte at the cursor.
    obtain ⟨sameChunk, ahead, within⟩ := step_running stepped
    have inside : machine.cursor < machine.chunk.code.size := by omega
    have moved := step_cursor inside
    rw [stepped] at moved
    have fetched : (machine :: states).filter hasByte = machine :: states.filter hasByte := by
      simp [hasByte, inside]
    rw [sameChunk] at ih
    rw [Chunk.rowsFrom_inside inside, fetched, ← moved]
    show _ :: (machine.chunk.rowsFrom later.cursor #[]).toList = _
    rw [ih]
    rfl

end Trail

end Machine

end ByteCalc
