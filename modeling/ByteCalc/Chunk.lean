import ByteCalc.Chunk.LineRun
import ByteCalc.Error

/-! Chunks of bytecode: code bytes, the pool of constants they index, and their source lines. -/

namespace ByteCalc

/-- A unit of bytecode. -/
structure Chunk where
  /-- Opcode bytes, each followed by its operand bytes. -/
  code : Array UInt8 := #[]
  /-- The constants that the code refers to by index. -/
  constants : Array Value := #[]
  /-- The lines of the bytes that were written, as runs. -/
  lines : Array LineRun := #[]
deriving BEq, Repr

namespace Chunk

/-- A chunk of no code and no constants. -/
def empty : Chunk := {}

/-- The line recorded for the byte at an offset, if one was. -/
def line? (chunk : Chunk) (offset : Nat) : Option UInt32 :=
  LineRun.lineFrom chunk.lines 0 offset

/-- The chunk with one more byte, which belongs to a line. -/
def write (chunk : Chunk) (byte : UInt8) (line : UInt32) : Chunk :=
  { chunk with code := chunk.code.push byte, lines := LineRun.extend chunk.lines line }

/-- The chunk with one more opcode byte. -/
def writeOpcode (chunk : Chunk) (opcode : Opcode) (line : UInt32) : Chunk :=
  chunk.write opcode.toByte line

/-- The chunk with one more constant, even if the pool already holds an equal one. -/
def addConstant (chunk : Chunk) (value : Value) : Chunk :=
  { chunk with constants := chunk.constants.push value }

/-- The chunk with a load of the constant at an index, in the shorter form if it fits. -/
def writeLoad (chunk : Chunk) (index : Nat) (line : UInt32) : Chunk :=
  -- Operand bytes belong to the same line as their opcode.
  if index ≤ maxShortIndex then
    (chunk.writeOpcode .constant line).write (UInt8.ofNat index) line
  else
    (LongIndex.ofNat index).bytes.foldl (fun written byte => written.write byte line)
      (chunk.writeOpcode .constantLong line)

/-- The chunk with one more constant and the instruction that loads it, unless the pool is full. -/
def writeConstant (chunk : Chunk) (value : Value) (line : UInt32) : Except ChunkError Chunk :=
  -- The new constant takes the index that was the size of the pool before it.
  let index := chunk.constants.size
  if index < maxConstants then .ok ((chunk.addConstant value).writeLoad index line)
  else .error (.tooManyConstants (index + 1))

/-- The index of the constant that was added last. -/
def lastIndex (chunk : Chunk) : Nat :=
  chunk.constants.size - 1

/-- Adds a constant with its load, and gives the index of the constant and the chunk after that. -/
def storeConstant (chunk : Chunk) (value : Value) (line : UInt32) :
    Except ChunkError Nat × Chunk :=
  -- A chunk that refuses the constant is kept.
  match chunk.writeConstant value line with
  | .ok written => (.ok written.lastIndex, written)
  | .error error => (.error error, chunk)

end Chunk

end ByteCalc
