import ByteCalc.Proofs.Chunk.RowText

/-! A listing is its banner and one line for each row. -/

namespace ByteCalc

/-- The text ends in a character that is not blank. -/
def EndsVisibly (text : List Char) : Prop :=
  ∃ front last, text = front ++ [last] ∧ isBlank last = false

namespace EndsVisibly

/-- What stands in front of a text makes no difference to its end. -/
theorem behind {text : List Char} (front : List Char) (ends : EndsVisibly text) :
    EndsVisibly (front ++ text) := by
  -- The last character is still the last one.
  obtain ⟨rest, last, rfl, shown⟩ := ends
  exact ⟨front ++ rest, last, (List.append_assoc ..).symm, shown⟩

end EndsVisibly

namespace Entry

/-- No entry has a line feed in it. -/
theorem lineFeed_not_mem_text (entry : Entry) : '\n' ∉ entry.text.toList := by
  -- A line feed is neither part of a name nor of a number nor of a message.
  cases entry with
  | endOfCode => decide
  | unknown byte => exact not_mem_unknown rfl (by decide)
  | plain opcode => exact Opcode.not_mem_mnemonic rfl
  | truncated opcode => exact not_mem_truncated rfl (by decide)
  | load opcode index constant =>
    -- The columns of a load have none, and neither has what it shows.
    rw [text_load]
    exact not_mem_loadText rfl rfl (not_mem_constantText rfl (by decide))

end Entry

namespace Row

/-- A row is one line. -/
theorem lineFeed_not_mem_text (row : Row) : '\n' ∉ row.text.toList := by
  -- Neither the columns of a row nor its entry can hold one.
  rw [text_eq, String.toList_append, List.mem_append]
  rintro (inColumns | inEntry)
  · exact absurd (isColumnChar_of_mem inColumns) (by decide)
  · exact row.entry.lineFeed_not_mem_text inEntry

end Row

/-- The lines of a text in which a line feed ends each of them, without the line feeds. -/
def linesOf (text : String) : List String :=
  (text.toList.splitOn '\n').dropLast.map String.ofList

namespace Chunk

/-- Rows are added behind those already listed. -/
theorem rowsFrom_append (chunk : Chunk) (offset : Nat) (before listed : Array Row) :
    chunk.rowsFrom offset (before ++ listed) = before ++ chunk.rowsFrom offset listed := by
  -- Both walks read the same rows, and each pushes them onto its own.
  fun_induction chunk.rowsFrom offset listed with
  | case1 offset listed inside onward row ih =>
    -- The row is pushed onto the listed rows in both walks, behind what stands before.
    rw [rowsFrom, dif_pos inside, ← ih, Array.append_push]
  | case2 offset listed outside => rw [rowsFrom, dif_neg outside]

/-- The rows from an offset inside the code are its own and those from the next offset on. -/
theorem rowsFrom_inside {chunk : Chunk} {offset : Nat} (inside : offset < chunk.code.size) :
    (chunk.rowsFrom offset #[]).toList =
      chunk.row offset :: (chunk.rowsFrom (chunk.row offset).next #[]).toList := by
  -- The walk goes on with this row already listed, so that it stands in front.
  have onward := chunk.rowsFrom_append (chunk.row offset).next #[chunk.row offset] #[]
  rw [rowsFrom, dif_pos inside]
  simpa using congrArg Array.toList onward

/-- Behind the code there are no rows. -/
theorem rowsFrom_outside {chunk : Chunk} {offset : Nat} (outside : chunk.code.size ≤ offset) :
    (chunk.rowsFrom offset #[]).toList = [] := by
  -- The walk stops before it reads anything.
  rw [rowsFrom, dif_neg (Nat.not_lt_of_le outside)]

/-- The lines of the rows of a listing, as one text. -/
def body (chunk : Chunk) : String :=
  String.ofList (chunk.rows.toList.flatMap fun row => row.text.toList ++ ['\n'])

/-- The body of a listing follows its banner. -/
theorem listing_eq (chunk : Chunk) (name : String) :
    chunk.listing name = s!"==={name}===\n" ++ chunk.body := by
  -- The rows are added to the banner one after the other.
  have folded (rows : List Row) (front : String) :
      rows.foldl (fun text row => text ++ row.text ++ "\n") front =
        front ++ String.ofList (rows.flatMap fun row => row.text.toList ++ ['\n']) := by
    induction rows generalizing front with
    -- A row with its line feed comes behind what is written, and in front of the other rows.
    | nil => simp
    | cons row rows ih =>
      rw [List.foldl_cons, ih, ← String.toList_inj]
      simp
  -- The fold starts from the banner alone.
  rw [listing, ← Array.foldl_toList, folded, body]

/-- The lines of the body are the texts of the rows. -/
theorem linesOf_body (chunk : Chunk) : linesOf chunk.body = chunk.rows.toList.map Row.text := by
  have split (rows : List Row) :
      (rows.flatMap fun row => row.text.toList ++ ['\n']).splitOn '\n' =
        rows.map (fun row => row.text.toList) ++ [[]] := by
    -- The first line feed is the one behind the first row.
    induction rows with
    | nil => rfl
    | cons row rows ih =>
      rw [List.flatMap_cons, List.append_assoc, List.singleton_append,
        List.splitOn_append_cons_self_of_not_mem row.lineFeed_not_mem_text, ih]
      rfl
  -- Behind the last line feed there is an empty piece, which is not a line.
  rw [linesOf, body, String.toList_ofList, split, List.dropLast_concat, List.map_map]
  exact List.map_congr_left fun row _ => String.ofList_toList

end Chunk

end ByteCalc
