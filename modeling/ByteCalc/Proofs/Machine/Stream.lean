import ByteCalc.Machine

/-! Instruction streams, which are decoded from code at once, and their execution on a stack. -/

namespace ByteCalc

/-- The number of values that an operation takes off the stack. -/
def Opcode.operands : Opcode → Nat
  | constant | constantLong => 0
  | negate | ret => 1
  | binary _ => 2

/-- A piece of code, as far as it goes for one instruction. -/
inductive Piece where
  /-- A load of the constant at an index, with the number of its bytes. -/
  | load (index width : Nat)
  /-- An instruction without operand bytes. -/
  | plain (opcode : Opcode)
  /-- A byte that stands for no opcode. -/
  | unknown (byte : UInt8)
  /-- A load whose operand bytes are not all there, with the number of those that are left. -/
  | truncated (width : Nat)
deriving DecidableEq, Repr

namespace Piece

/-- The number of bytes that a piece takes. -/
def width : Piece → Nat
  | load _ width | truncated width => width
  | plain _ | unknown _ => 1

/-- The pieces of some bytes, one after the other. -/
def stream : List UInt8 → List Piece
  | [] => []
  | byte :: rest =>
    -- A load takes its operand bytes with it, and the stream goes on behind these.
    match Opcode.ofByte? byte, rest with
    | none, rest => .unknown byte :: stream rest
    | some .constant, index :: rest => .load index.toNat 2 :: stream rest
    | some .constantLong, low :: middle :: high :: rest =>
      .load (LongIndex.mk low middle high).toNat 4 :: stream rest
    -- Too few bytes are left, so there is nothing behind them.
    | some .constant, rest | some .constantLong, rest => [.truncated (rest.length + 1)]
    | some opcode, rest => .plain opcode :: stream rest

/-- The stack behind a piece, if the execution goes on there. -/
def after? (pool : Array Value) : Piece → List Value → Option (List Value)
  | load index _, stack => pool[index]?.map (· :: stack)
  | plain .negate, value :: below => some (value.negate :: below)
  -- The right operand was pushed last.
  | plain (.binary op), right :: left :: below =>
    if op = .divide ∧ right.isZero then none else some (op.apply left right :: below)
  | _, _ => none

end Piece

/-- Where the execution of a stream comes to a stop. -/
structure Stop where
  /-- The offset of the piece that stops it, or of the end. -/
  offset : Nat
  /-- The piece that stops it, unless that is the end. -/
  piece : Option Piece
  /-- The stack just before the piece. -/
  stack : List Value
deriving DecidableEq, Repr

/-- Executes a stream that starts at an offset, up to the first piece that does not go on. -/
def Piece.execute (pool : Array Value) : Nat → List Piece → List Value → Stop
  | offset, [], stack => ⟨offset, none, stack⟩
  | offset, piece :: pieces, stack =>
    match piece.after? pool stack with
    | some later => execute pool (offset + piece.width) pieces later
    | none => ⟨offset, some piece, stack⟩

namespace Stop

/-- The number of values that are needed where an execution stops. -/
def operands (stop : Stop) : Nat :=
  match stop.piece with
  | some (.plain opcode) => opcode.operands
  | _ => 0

/-- What a run ends with at a stop, and the state that it leaves. -/
inductive Leaves (chunk : Chunk) : Stop → Outcome → Machine → Prop
  /-- A return takes its value off the stack. -/
  | returned {offset : Nat} {value : Value} {below : List Value} :
      Leaves chunk ⟨offset, some (.plain .ret), value :: below⟩ (.ok value)
        ⟨chunk, offset + 1, below⟩
  /-- Without a return, the end of the code is where the cursor stays. -/
  | missingReturn {stack : List Value} :
      Leaves chunk ⟨chunk.code.size, none, stack⟩
        (.error ⟨.missingReturn, chunk.line? chunk.code.size⟩) ⟨chunk, chunk.code.size, stack⟩
  /-- An unknown byte is passed. -/
  | unknownOpcode {offset : Nat} {byte : UInt8} {stack : List Value} :
      Leaves chunk ⟨offset, some (.unknown byte), stack⟩
        (.error ⟨.unknownOpcode byte, chunk.line? offset⟩) ⟨chunk, offset + 1, stack⟩
  /-- Whatever is left of a load that is cut off is passed. -/
  | truncatedInstruction {offset width : Nat} {stack : List Value} :
      Leaves chunk ⟨offset, some (.truncated width), stack⟩
        (.error ⟨.truncatedInstruction offset, chunk.line? offset⟩)
        ⟨chunk, chunk.code.size, stack⟩
  /-- A load is passed even if there is no constant for it. -/
  | constantOutOfRange {offset index width : Nat} {stack : List Value}
      (outside : chunk.constants.size ≤ index) :
      Leaves chunk ⟨offset, some (.load index width), stack⟩
        (.error ⟨.constantOutOfRange index chunk.constants.size, chunk.line? offset⟩)
        ⟨chunk, offset + width, stack⟩
  /-- Too few operands are all lost. -/
  | stackUnderflow {offset : Nat} {opcode : Opcode} {stack : List Value}
      (few : stack.length < opcode.operands) :
      Leaves chunk ⟨offset, some (.plain opcode), stack⟩
        (.error ⟨.stackUnderflow, chunk.line? offset⟩) ⟨chunk, offset + 1, []⟩
  /-- A division by zero takes its operands off the stack. -/
  | divisionByZero {offset : Nat} {right left : Value} {below : List Value} (zero : right.isZero) :
      Leaves chunk ⟨offset, some (.plain (.binary .divide)), right :: left :: below⟩
        (.error ⟨.divisionByZero, chunk.line? offset⟩) ⟨chunk, offset + 1, below⟩

section Leaves

variable {chunk : Chunk} {stop : Stop} {outcome : Outcome} {last : Machine}

/-- Where a return finds a value, nothing is missing. -/
theorem not_few_ret {value : Value} {below : List Value} :
    ¬ (value :: below).length < Opcode.operands .ret := by
  -- One value is enough.
  simp [Opcode.operands]

/-- Where a division finds both operands, nothing is missing. -/
theorem not_few_divide {right left : Value} {below : List Value} :
    ¬ (right :: left :: below).length < Opcode.operands (.binary .divide) := by
  -- Two values are enough.
  simp [Opcode.operands]

/-- A stop leaves one thing only. -/
theorem Leaves.unique {other : Outcome} {final : Machine} (leaves : stop.Leaves chunk outcome last)
    (also : stop.Leaves chunk other final) : outcome = other ∧ last = final := by
  -- Each kind of piece stops an execution in one way, if there are enough operands or too few.
  cases leaves with
  -- A return with a value on top does not lack it.
  | returned =>
    cases also with
    | returned => exact ⟨rfl, rfl⟩
    | stackUnderflow few => exact absurd few not_few_ret
  -- An operation that lacks operands neither returns nor divides.
  | stackUnderflow few =>
    cases also with
    | returned => exact absurd few not_few_ret
    | stackUnderflow => exact ⟨rfl, rfl⟩
    | divisionByZero => exact absurd few not_few_divide
  -- A division by zero has had both operands.
  | divisionByZero =>
    cases also with
    | stackUnderflow few => exact absurd few not_few_divide
    | divisionByZero => exact ⟨rfl, rfl⟩
  | missingReturn | unknownOpcode | truncatedInstruction | constantOutOfRange =>
    cases also
    exact ⟨rfl, rfl⟩

/-- Operands are missing exactly if there are fewer of them than the piece needs. -/
theorem Leaves.underflow_iff (leaves : stop.Leaves chunk outcome last) :
    (∃ line, outcome = .error ⟨.stackUnderflow, line⟩) ↔ stop.stack.length < stop.operands := by
  -- Every other way to stop needs no operands, or has found them.
  cases leaves with
  | returned => exact ⟨fun ⟨_, other⟩ => (nomatch other), fun few => absurd few not_few_ret⟩
  | divisionByZero => exact ⟨fun ⟨_, other⟩ => (nomatch other), fun few => absurd few not_few_divide⟩
  | stackUnderflow few => exact ⟨fun _ => few, fun _ => ⟨_, rfl⟩⟩
  | missingReturn | unknownOpcode | truncatedInstruction | constantOutOfRange =>
    exact ⟨fun ⟨_, other⟩ => (nomatch other), fun few => absurd few (Nat.not_lt_zero _)⟩

/-- A division by zero is a division of two values on top of which there is a zero. -/
theorem Leaves.division_iff (leaves : stop.Leaves chunk outcome last) :
    (∃ line, outcome = .error ⟨.divisionByZero, line⟩) ↔
      stop.piece = some (.plain (.binary .divide)) ∧
        ∃ right left below, stop.stack = right :: left :: below ∧ right.isZero := by
  -- A division that lacks operands is the only other stop at a division.
  cases leaves with
  | divisionByZero zero => exact ⟨fun _ => ⟨rfl, _, _, _, rfl, zero⟩, fun _ => ⟨_, rfl⟩⟩
  | stackUnderflow few =>
    refine ⟨fun ⟨_, other⟩ => (nomatch other), ?_⟩
    -- The division would have had both operands.
    rintro ⟨piece, right, left, below, stack, _⟩
    cases piece
    cases stack
    exact absurd few not_few_divide
  | returned | missingReturn | unknownOpcode | truncatedInstruction | constantOutOfRange =>
    exact ⟨fun ⟨_, other⟩ => (nomatch other), fun ⟨other, _⟩ => (nomatch other)⟩

end Leaves

end Stop

end ByteCalc
