/-! Source lines of code bytes, kept as runs of equal lines. -/

namespace ByteCalc

/-- A run of consecutive bytes that come from one line. -/
structure LineRun where
  /-- The number of bytes. -/
  length : Nat
  /-- The line of each of them. -/
  line : UInt32
deriving DecidableEq, Repr

namespace LineRun

/-- The runs after one more byte, which joins the last run when the line is the same. -/
def extend (runs : Array LineRun) (line : UInt32) : Array LineRun :=
  -- Only the last run can grow, so a line that comes back later starts a run of its own.
  match runs.back? with
  | some last =>
    if last.line = line then runs.pop.push ⟨last.length + 1, line⟩ else runs.push ⟨1, line⟩
  | none => runs.push ⟨1, line⟩

/-- The line of the byte at an offset, counted from the start of the run at an index. -/
def lineFrom (runs : Array LineRun) (index offset : Nat) : Option UInt32 :=
  -- A run that ends before the offset is passed over with all of its bytes.
  if inside : index < runs.size then
    let run := runs[index]
    if offset < run.length then some run.line
    else lineFrom runs (index + 1) (offset - run.length)
  else none
termination_by runs.size - index

end LineRun

end ByteCalc
