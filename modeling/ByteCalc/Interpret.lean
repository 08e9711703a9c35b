import ByteCalc.Compile
import ByteCalc.Record

/-! Interpretation of a source text: its compilation, and then one run of the result. -/

namespace ByteCalc

/-- The value that a chunk returns when it is run from its start, and the state it leaves. -/
def interpretChunk (chunk : Chunk) : Except InterpretError Value × Machine :=
  -- A chunk that is already compiled can only fail while it runs.
  let (outcome, last) := (Machine.start chunk).run
  (outcome.mapError .runtime, last)

/-- The value of the expression in a source text. -/
def interpret (source : String) : Except InterpretError Value :=
  match compile source with
  | .ok chunk => (interpretChunk chunk).1
  | .error error => .error (.compile error)

/-- The records of a compilation that are kept under a limit. -/
def compileRecords (limit : Option Detail) (source : String) : Array Record :=
  match compile source with
  | .ok chunk => if Detail.debug.within limit then #[.compiled chunk] else #[]
  | .error _ => #[]

/-- The records of an interpretation that are kept under a limit. -/
def interpretRecords (limit : Option Detail) (source : String) : Array Record :=
  match compile source with
  | .ok chunk => compileRecords limit source ++ (Machine.start chunk).runRecords limit
  | .error _ => #[]

end ByteCalc
