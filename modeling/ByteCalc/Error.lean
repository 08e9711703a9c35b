import ByteCalc.Opcode

/-! What can go wrong while a chunk is built, compiled or run, and the text shown for it. -/

namespace ByteCalc

/-- Why a chunk refuses another constant. -/
inductive ChunkError where
  /-- The pool is full, and the constant would have been the `count`-th. -/
  | tooManyConstants (count : Nat)
deriving DecidableEq, Repr

/-- The text of a chunk error. -/
def ChunkError.message : ChunkError → String
  | tooManyConstants count =>
    s!"Too many constants in one chunk ({count}); the limit is {maxConstants}."

/-- What is wrong with a source text. -/
inductive CompileFault where
  /-- A character that starts no token. -/
  | unexpectedChar (char : Char)
  /-- A string without a closing quote. -/
  | unterminatedString
  /-- A token, or the end, where an operand has to stand. -/
  | expectedExpression (found : String)
  /-- Another token than the one the message asks for. -/
  | expectedToken (wanted found : String)
  /-- An operand of a kind that no instruction computes. -/
  | unsupported (found : String)
  /-- More nesting than the compiler allows. -/
  | tooDeep
  /-- A literal for which the chunk has no room. -/
  | chunk (error : ChunkError)
deriving DecidableEq, Repr

/-- A fault in a source text, with its line. -/
structure CompileError where
  /-- What is wrong. -/
  fault : CompileFault
  /-- The line where it is wrong. -/
  line : UInt32
deriving DecidableEq, Repr

namespace CompileError

/-- The text of a compile error. -/
def message (error : CompileError) : String :=
  let place := s!"[line {error.line}] Error"
  match error.fault with
  | .unexpectedChar char => s!"{place}: Unexpected character '{char}'."
  | .unterminatedString => s!"{place}: Unterminated string."
  | .expectedExpression found => s!"{place} at '{found}': Expect expression."
  | .expectedToken wanted found => s!"{place} at '{found}': {wanted}"
  | .unsupported found => s!"{place} at '{found}': Unsupported expression."
  | .tooDeep => s!"{place}: Expression nests too deeply."
  | .chunk error => s!"{place}: {error.message}"

end CompileError

/-- Why a run stops without a result. -/
inductive RuntimeFault where
  /-- An instruction needs more values than the stack holds. -/
  | stackUnderflow
  /-- A byte in opcode position that stands for no opcode. -/
  | unknownOpcode (byte : UInt8)
  /-- A constant index at or past the size of the pool. -/
  | constantOutOfRange (index size : Nat)
  /-- An instruction whose operand bytes run past the end of the code. -/
  | truncatedInstruction (offset : Nat)
  /-- A division whose divisor is zero of either sign. -/
  | divisionByZero
  /-- The code ends before a return. -/
  | missingReturn
deriving DecidableEq, Repr

/-- The text of a runtime fault. -/
def RuntimeFault.message : RuntimeFault → String
  | stackUnderflow => "Stack underflow."
  | unknownOpcode byte => s!"Unknown opcode {byte}."
  | constantOutOfRange index size =>
    s!"Constant index {index} out of range for a pool of {size}."
  | truncatedInstruction offset =>
    s!"Instruction at offset {offset} is missing operand bytes."
  | divisionByZero => "Division by zero."
  | missingReturn => "Ran off the end of the chunk without a return."

/-- A fault of a run, with the line of its instruction when that is known. -/
structure RuntimeError where
  /-- Why the run stopped. -/
  fault : RuntimeFault
  /-- The line recorded for the first byte of the instruction. -/
  line : Option UInt32
deriving DecidableEq, Repr

/-- The text of a runtime error, with its place on a second line. -/
def RuntimeError.message (error : RuntimeError) : String :=
  match error.line with
  | some line => s!"{error.fault.message}\n[line {line}] in script"
  | none => error.fault.message

/-- Why a source text has no result. -/
inductive InterpretError where
  /-- The text is not a program, so nothing ran. -/
  | compile (error : CompileError)
  /-- The program stopped early. -/
  | runtime (error : RuntimeError)
deriving DecidableEq, Repr

namespace InterpretError

/-- The text of the error, headed by its stage. -/
def message : InterpretError → String
  | compile error => s!"Compile error: {error.message}"
  | runtime error => s!"Runtime error: {error.message}"

/-- The exit code for the error: bad input is 65 and a failed run 70. -/
def exitCode : InterpretError → UInt32
  | compile _ => 65
  | runtime _ => 70

end InterpretError

end ByteCalc
