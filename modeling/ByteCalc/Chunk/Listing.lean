import ByteCalc.Chunk
import ByteCalc.Text.Padding

/-! Listings of a chunk: what stands at each offset, and the text of a row for it. -/

namespace ByteCalc

/-- What the line column of a row shows. -/
inductive LineMark where
  /-- The line is that of the byte before. -/
  | repeated
  /-- A line of its own. -/
  | known (line : UInt32)
  /-- No line is recorded. -/
  | unknown
deriving DecidableEq, Repr

/-- What stands at an offset of the code. -/
inductive Entry where
  /-- Nothing, as the code ends before the offset. -/
  | endOfCode
  /-- A byte that stands for no opcode. -/
  | unknown (byte : UInt8)
  /-- An instruction without operands. -/
  | plain (opcode : Opcode)
  /-- A load whose operand bytes are cut off by the end of the code. -/
  | truncated (opcode : Opcode)
  /-- A load of the constant at an index, which the pool may lack. -/
  | load (opcode : Opcode) (index : Nat) (constant : Option Value)
deriving DecidableEq, Repr

/-- One row of a listing. -/
structure Row where
  /-- The offset of the instruction. -/
  offset : Nat
  /-- What is shown for its line. -/
  mark : LineMark
  /-- What stands there. -/
  entry : Entry
  /-- The offset of the next instruction. -/
  next : Nat
deriving DecidableEq, Repr

/-- The text of the line column. -/
def LineMark.text : LineMark → String
  | repeated => "|"
  | known line => toString line
  | unknown => "?"

/-- The text of an entry. -/
def Entry.text : Entry → String
  | endOfCode => "<end of code>"
  | unknown byte => s!"Unknown code {byte}"
  | plain opcode => opcode.mnemonic
  | truncated opcode => padRight 16 opcode.mnemonic ++ " <truncated>"
  | load opcode index constant =>
    let shown := match constant with
      | some value => value.toText
      | none => "<out of range>"
    padRight 16 opcode.mnemonic ++ " " ++ padLeft 4 ' ' (toString index) ++ " " ++ shown

/-- The text of a row, without a line feed. -/
def Row.text (row : Row) : String :=
  -- Both columns are four wide, and grow only for longer numbers.
  padLeft 4 '0' (toString row.offset) ++ " " ++ padLeft 4 ' ' row.mark.text ++ " " ++
    row.entry.text

namespace Chunk

/-- What the row at an offset shows for its line. -/
def mark (chunk : Chunk) (offset : Nat) : LineMark :=
  -- Two bytes without a line count as bytes of one line.
  let line := chunk.line? offset
  if 0 < offset ∧ line = chunk.line? (offset - 1) then .repeated
  else match line with
    | some line => .known line
    | none => .unknown

/-- The index in the operand bytes of a load, if all of them are there. -/
def operandIndex? : Opcode → List UInt8 → Option Nat
  | .constant, [index] => some index.toNat
  | .constantLong, [low, middle, high] => some (LongIndex.mk low middle high).toNat
  | _, _ => none

/-- The entry of a load. -/
def loadEntry (chunk : Chunk) (opcode : Opcode) (offset : Nat) : Entry :=
  -- The operand bytes are those up to the width of the instruction, as far as the code goes.
  let operands := chunk.code.extract (offset + 1) (offset + opcode.width)
  match operandIndex? opcode operands.toList with
  | some index => .load opcode index chunk.constants[index]?
  | none => .truncated opcode

/-- What stands at an offset. -/
def entry (chunk : Chunk) (offset : Nat) : Entry :=
  -- Only loads have operands to look for.
  match chunk.code[offset]? with
  | none => .endOfCode
  | some byte =>
    match Opcode.ofByte? byte with
    | none => .unknown byte
    | some .constant => chunk.loadEntry .constant offset
    | some .constantLong => chunk.loadEntry .constantLong offset
    | some opcode => .plain opcode

/-- The offset after an entry, which is the end of the code when the entry is cut off there. -/
def nextOffset (chunk : Chunk) (offset : Nat) : Entry → Nat
  | .endOfCode | .unknown _ | .plain _ => offset + 1
  | .truncated _ => chunk.code.size
  | .load opcode _ _ => offset + opcode.width

/-- The row of the instruction at an offset. -/
def row (chunk : Chunk) (offset : Nat) : Row :=
  let entry := chunk.entry offset
  ⟨offset, chunk.mark offset, entry, chunk.nextOffset offset entry⟩

/-- A row inside the code moves the listing on. -/
theorem lt_row_next (chunk : Chunk) {offset : Nat} (inside : offset < chunk.code.size) :
    offset < (chunk.row offset).next := by
  -- A load that is cut off jumps to the end, and every other entry skips at least its opcode.
  simp only [row]
  cases chunk.entry offset with
  | truncated => exact inside
  | load opcode => exact Nat.lt_add_of_pos_right opcode.width_pos
  | endOfCode | unknown | plain => exact Nat.lt_succ_self offset

/-- The rows from an offset to the end of the code, after those already listed. -/
def rowsFrom (chunk : Chunk) (offset : Nat) (listed : Array Row) : Array Row :=
  if inside : offset < chunk.code.size then
    have := chunk.lt_row_next inside
    let row := chunk.row offset
    rowsFrom chunk row.next (listed.push row)
  else listed
termination_by chunk.code.size - offset

/-- All rows of the chunk. -/
def rows (chunk : Chunk) : Array Row :=
  chunk.rowsFrom 0 #[]

/-- The listing of the chunk under a name. -/
def listing (chunk : Chunk) (name : String) : String :=
  -- The name is set off by a banner of its own line.
  chunk.rows.foldl (fun text row => text ++ row.text ++ "\n") s!"==={name}===\n"

end Chunk

end ByteCalc
