import ByteCalc.Chunk

/-! The line table of a chunk holds one line for each byte that was written. -/

namespace ByteCalc

namespace LineRun

/-- The line of each byte that some runs cover, in order. -/
def expand (runs : List LineRun) : List UInt32 :=
  runs.flatMap fun run => List.replicate run.length run.line

/-- Covering one more byte adds its line at the end. -/
theorem expand_extend (runs : Array LineRun) (line : UInt32) :
    expand (extend runs line).toList = expand runs.toList ++ [line] := by
  -- The byte joins the last run when the lines agree, and starts a run of its own otherwise.
  unfold extend
  split
  next last final =>
    -- The table is cut in front of its last run, which is the one that may change.
    have whole : runs.toList = runs.pop.toList ++ [last] := by
      obtain ⟨_, built⟩ := Array.back?_eq_some_iff.1 final
      simp [built]
    split
    next same =>
      -- The last run is longer by one, and so is what it covers.
      rw [Array.toList_push, whole]
      simp [expand, same, List.replicate_succ']
    -- A new run of a single byte stands behind all others.
    next => simp [expand]
  -- Without any run, the first byte is the only one that is covered.
  next => simp [expand]

/-- A run inside the table stands at the front of the runs from its index on. -/
private theorem drop_run {runs : Array LineRun} {index : Nat} (inside : index < runs.size) :
    runs.toList.drop index = runs[index] :: runs.toList.drop (index + 1) := by
  -- The array and its list hold the same runs at the same indices.
  simp [List.drop_eq_getElem_cons (Array.length_toList ▸ inside)]

/-- Walking the runs from an index finds the line at an offset among the lines they cover. -/
theorem lineFrom_eq (runs : Array LineRun) (index offset : Nat) :
    lineFrom runs index offset = (expand (runs.toList.drop index))[offset]? := by
  -- A run that is passed over takes its bytes off the front of the lines.
  fun_induction lineFrom runs index offset with
  | case1 index offset inside run before =>
    -- The offset lies inside the run, all of whose bytes have its line.
    rw [drop_run inside]
    simp [run, expand, List.getElem?_append, before]
  | case2 index offset inside run beyond ih =>
    -- Behind the run, the offset is counted from its end on.
    rw [drop_run inside, ih]
    simp [run, expand, List.getElem?_append, beyond]
  | case3 index offset outside =>
    -- No runs are left, and so no lines either.
    rw [List.drop_of_length_le (by simpa using outside)]
    simp [expand]

end LineRun

namespace Chunk

/-- The line of each byte that was written to the chunk, in order. -/
def byteLines (chunk : Chunk) : List UInt32 :=
  LineRun.expand chunk.lines.toList

/-- The line of an offset is that of the byte written there. -/
theorem line?_eq (chunk : Chunk) (offset : Nat) : chunk.line? offset = chunk.byteLines[offset]? := by
  -- The walk starts at the first run.
  simp [line?, byteLines, LineRun.lineFrom_eq]

/-- Writing a byte records its line. -/
theorem byteLines_write (chunk : Chunk) (byte : UInt8) (line : UInt32) :
    -- The table of the written chunk is the old one, extended by the line.
    (chunk.write byte line).byteLines = chunk.byteLines ++ [line] :=
  LineRun.expand_extend chunk.lines line

end Chunk

end ByteCalc
