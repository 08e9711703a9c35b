import ByteCalc.Proofs.Chunk.Lines
import ByteCalc.Proofs.Machine.Decoding

/-! The rows of a listing divide the code, and the lines of its text are the rows. -/

namespace ByteCalc

namespace Row

/-- Rows that lead from one offset to another, each of them to where the next one starts. -/
inductive Tiles : Nat → List Row → Nat → Prop
  /-- No rows lead anywhere else. -/
  | nil (offset : Nat) : Tiles offset [] offset
  /-- A row moves on to the rows behind it. -/
  | cons {row : Row} {rows : List Row} {first last : Nat} (starts : row.offset = first)
      (onward : first < row.next) (behind : Tiles row.next rows last) :
      Tiles first (row :: rows) last

namespace Tiles

variable {first last : Nat} {rows : List Row}

/-- Each row takes up a byte at least. -/
theorem length_le (tiles : Tiles first rows last) : first + rows.length ≤ last := by
  -- So the offsets on the way are as many as the rows, or more.
  induction tiles with
  | nil => exact Nat.le_refl _
  -- The first row moves on by a byte at least, and the others lead from there.
  | cons _ onward _ ih =>
    rw [List.length_cons]
    omega

/-- A row on the way lies between the two ends. -/
theorem bounds (tiles : Tiles first rows last) :
    ∀ row ∈ rows, first ≤ row.offset ∧ row.offset < row.next ∧ row.next ≤ last := by
  induction tiles with
  | nil => exact fun _ none => nomatch none
  -- The first row begins at the start, and ends where the others begin.
  | cons starts onward behind ih =>
    -- The rows behind the first one start no earlier than that one ends.
    have room := behind.length_le
    refine List.forall_mem_cons.2 ⟨by omega, fun later mem => ?_⟩
    obtain ⟨start, moved, stays⟩ := ih later mem
    exact ⟨by omega, moved, stays⟩

/-- Of two rows, the first one ends where the second one starts, or before that. -/
theorem ascending (tiles : Tiles first rows last) :
    rows.Pairwise fun row later => row.next ≤ later.offset := by
  -- The rows behind a row lie between the end of that and the end of all.
  induction tiles with
  | nil => exact .nil
  | cons _ _ behind ih => exact .cons (fun later mem => (behind.bounds later mem).1) ih

/-- The last row leads to the end. -/
theorem next_getLast? (tiles : Tiles first rows last) : ∀ row ∈ rows.getLast?, row.next = last := by
  -- The last row is the one with no rows behind it.
  induction tiles with
  | nil => exact fun _ none => nomatch none
  | cons _ _ behind ih =>
    cases behind with
    -- The only row leads to the end itself.
    | nil =>
      intro only mem
      cases mem
      rfl
    -- Any further rows have the same last row.
    | cons => exact ih

/-- Every offset on the way lies in one row, and in no other. -/
theorem existsUnique (tiles : Tiles first rows last) {place : Nat} (start : first ≤ place)
    (stop : place < last) : ∃! row, row ∈ rows ∧ row.offset ≤ place ∧ place < row.next := by
  induction tiles with
  -- There is no place between an offset and itself.
  | nil => omega
  | @cons row rows first last starts onward behind ih =>
    by_cases inside : place < row.next
    · -- The other rows start behind the place.
      refine ⟨row, ⟨List.mem_cons_self, starts ▸ start, inside⟩, fun other ⟨mem, before, _⟩ => ?_⟩
      rcases List.mem_cons.1 mem with same | later
      · exact same
      · have := (behind.bounds other later).1
        omega
    · -- Behind the first row, the place lies in one of the others.
      obtain ⟨found, ⟨mem, before, within⟩, only⟩ := ih (Nat.le_of_not_lt inside) stop
      refine ⟨found, ⟨List.mem_cons_of_mem _ mem, before, within⟩, fun other ⟨mem, holds⟩ => ?_⟩
      rcases List.mem_cons.1 mem with rfl | later
      · exact absurd holds.2 inside
      · exact only other ⟨later, holds⟩

end Tiles

/-- The text of a row starts with its offset, filled up to four digits, and a blank. -/
theorem toList_text (row : Row) :
    ∃ shown, row.text.toList =
      List.replicate (4 - (toString row.offset).length) '0' ++ (toString row.offset).toList ++
        ' ' :: shown := by
  -- The columns of the line and of the entry come behind the blank.
  simp only [text, String.toList_append, toList_padLeft, String.length_toList, List.append_assoc]
  exact ⟨_, rfl⟩

end Row

namespace Chunk

/-- What holds behind the code, and goes back over a row, holds of the rows from any offset. -/
theorem rowsFrom_induction {chunk : Chunk} {motive : Nat → List Row → Prop}
    (ended : ∀ offset, chunk.code.size ≤ offset → motive offset [])
    (inside : ∀ offset rows, offset < chunk.code.size → motive (chunk.row offset).next rows →
      motive offset (chunk.row offset :: rows))
    (offset : Nat) : motive offset (chunk.rowsFrom offset #[]).toList := by
  -- Every row leaves less of the code.
  induction left : chunk.code.size - offset using Nat.strongRecOn generalizing offset with
  | ind size ih =>
    by_cases within : offset < chunk.code.size
    -- The row moves on, so that the induction applies behind it.
    · have onward := chunk.lt_row_next within
      rw [rowsFrom_inside within]
      exact inside offset _ within (ih _ (by omega) _ rfl)
    · -- Behind the code, nothing is listed.
      have outside := Nat.le_of_not_lt within
      rw [rowsFrom_outside outside]
      exact ended offset outside

/-- The rows from an offset lead to the end of the code. -/
theorem tiles_rowsFrom {chunk : Chunk} {offset : Nat} :
    offset ≤ chunk.code.size →
      Row.Tiles offset (chunk.rowsFrom offset #[]).toList chunk.code.size := by
  -- A row inside the code leads on, and not too far.
  refine rowsFrom_induction
    (motive := fun offset rows => offset ≤ chunk.code.size → Row.Tiles offset rows chunk.code.size)
    (fun offset outside within => ?_) (fun offset rows inside ih _ => ?_) offset
  · -- At the end of the code, both offsets are the same.
    rw [Nat.le_antisymm within outside]
    exact .nil _
  · -- The row starts at its own offset, and ends within the code.
    exact .cons rfl (chunk.lt_row_next inside) (ih (chunk.row_next_le_size inside))

/-- Each of the rows is the one of its own offset. -/
theorem eq_row_of_mem_rowsFrom {chunk : Chunk} {start : Nat} :
    ∀ row ∈ (chunk.rowsFrom start #[]).toList, row = chunk.row row.offset := by
  -- The walk lists nothing but rows that it reads off the chunk.
  refine rowsFrom_induction (motive := fun _ rows => ∀ row ∈ rows, row = chunk.row row.offset)
    (fun _ _ _ none => nomatch none) (fun offset rows _ ih => ?_) start
  exact List.forall_mem_cons.2 ⟨rfl, ih⟩

/-- Behind a load, the row goes on to the end of the operand bytes, as far as the code goes. -/
theorem row_next_of_isLoad {chunk : Chunk} {offset : Nat} {opcode : Opcode} (loads : opcode.isLoad)
    (opened : chunk.code[offset]? = some opcode.toByte) :
    (chunk.row offset).next = min chunk.code.size (offset + opcode.width) := by
  -- An opcode is known by its byte, so it is this opcode that stands there.
  have known {other : Opcode} (found : chunk.code[offset]? = some other.toByte) : other = opcode := by
    have same : some other = some opcode := by
      rw [← Opcode.ofByte?_toByte other, ← Opcode.ofByte?_toByte opcode,
        Option.some.inj (found.symm.trans opened)]
    exact Option.some.inj same
  rw [row]
  have stands := chunk.entry_stands offset
  generalize chunk.entry offset = entry at stands ⊢
  cases stands with
  -- An opcode stands at the offset, so it is inside the code, and known.
  | endOfCode outside =>
    rw [Array.getElem?_eq_none outside] at opened
    cases opened
  | unknown found other =>
    rw [Option.some.inj (found.symm.trans opened), Opcode.ofByte?_toByte] at other
    cases other
  -- A plain row has an opcode without operands.
  | plain found single =>
    rw [known found, loads] at single
    cases single
  -- A load that is cut off ends with the code.
  | truncated found _ cut => exact (Nat.min_eq_left (known found ▸ Nat.le_of_lt cut)).symm
  -- A whole load ends behind its operands.
  | load found _ whole =>
    obtain rfl := known found
    exact (Nat.min_eq_right whole).symm

/-- How the rows of a listing divide the code of a chunk. -/
structure Tiled (chunk : Chunk) (rows : List Row) : Prop where
  /-- The first row starts at the first byte, each other one where the row before it ends. -/
  tiles : Row.Tiles 0 rows chunk.code.size
  /-- The offsets increase from row to row. -/
  ascending : (rows.map Row.offset).Pairwise (· < ·)
  /-- Every byte of the code lies in one row, and in no other. -/
  covered : ∀ place, place < chunk.code.size →
    ∃! row, row ∈ rows ∧ row.offset ≤ place ∧ place < row.next
  /-- No row is empty, and none ends behind the code. -/
  within : ∀ row ∈ rows, row.offset < row.next ∧ row.next ≤ chunk.code.size
  /-- The last row ends where the code ends. -/
  last : ∀ row ∈ rows.getLast?, row.next = chunk.code.size
  /-- The walk comes to its end after as many rows as there are bytes at the most. -/
  bounded : rows.length ≤ chunk.code.size
  /-- The operand bytes that are looked at lie inside the row of their load. -/
  operands : ∀ row ∈ rows, ∀ opcode : Opcode, opcode.isLoad →
    chunk.code[row.offset]? = some opcode.toByte →
      min chunk.code.size (row.offset + opcode.width) = row.next ∧
      (chunk.code.extract (row.offset + 1) (row.offset + opcode.width)).size =
        row.next - (row.offset + 1)

/-- The rows of any chunk divide its code. -/
theorem tiled_rows (chunk : Chunk) : chunk.Tiled chunk.rows.toList := by
  have tiles : Row.Tiles 0 chunk.rows.toList chunk.code.size := tiles_rowsFrom (Nat.zero_le _)
  have within (row : Row) (mem : row ∈ chunk.rows.toList) :
      row.offset < row.next ∧ row.next ≤ chunk.code.size := (tiles.bounds row mem).2
  refine ⟨tiles, ?_, fun place inside => ?_, within, tiles.next_getLast?, ?_, ?_⟩
  · -- A row ends behind its offset, and the next one does not start before that.
    refine List.pairwise_map.2 (tiles.ascending.imp_of_mem fun mem _ ends => ?_)
    exact Nat.lt_of_lt_of_le (within _ mem).1 ends
  · -- Each byte lies between the first offset and the end of the code.
    exact tiles.existsUnique (Nat.zero_le _) inside
  · -- Each row has a byte of its own.
    rw [← Nat.zero_add chunk.rows.toList.length]
    exact tiles.length_le
  · -- The row of a load is found again at its offset, and ends where the load does.
    intro row mem opcode loads opened
    have own : row = chunk.row row.offset := eq_row_of_mem_rowsFrom row mem
    have ends : row.next = min chunk.code.size (row.offset + opcode.width) :=
      (congrArg Row.next own).trans (row_next_of_isLoad loads opened)
    refine ⟨ends.symm, ?_⟩
    rw [Array.size_extract, ends, Nat.min_comm]

/--
The rows of a listing divide the code of any chunk, whatever its bytes, its pool and its lines are.

Behind its banner, the text has one line for each of them, which starts with the offset of the row.
-/
theorem listing_tiles (chunk : Chunk) (name : String) :
    chunk.Tiled chunk.rows.toList ∧
      ∃ body, chunk.listing name = s!"==={name}===\n" ++ body ∧
        body.toList = (chunk.rows.toList.flatMap fun row => row.text.toList ++ ['\n']) ∧
        ∀ row ∈ chunk.rows.toList, row = chunk.row row.offset ∧ '\n' ∉ row.text.toList ∧
          ∃ shown, row.text.toList =
            List.replicate (4 - (toString row.offset).length) '0' ++
              (toString row.offset).toList ++ ' ' :: shown := by
  refine ⟨chunk.tiled_rows, chunk.body, chunk.listing_eq name, String.toList_ofList, ?_⟩
  -- A row that is listed is the one of its offset, and has the text of that.
  intro row mem
  exact ⟨eq_row_of_mem_rowsFrom row mem, row.lineFeed_not_mem_text, row.toList_text⟩

/-- A load that is cut off behind an unknown byte takes up the rest of the code. -/
example : (rows { code := #[0xEE, 1, 0, 0] }).toList.map (fun row => (row.offset, row.next)) =
    [(0, 1), (1, 4)] := by decide +kernel

end Chunk

end ByteCalc
