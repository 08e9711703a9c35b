import Mathlib.Logic.Relation
import ByteCalc.Proofs.Expression.Code
import ByteCalc.Proofs.Machine.Decoding

/-! One step of the machine for each instruction, wherever in a chunk the instruction stands. -/

namespace ByteCalc

/-- There is one line for each byte of a program. -/
theorem Placed.length_lines (program : List Placed) :
    (lines program).length = (bytes program).length := by
  -- The line of an instruction is repeated for each of its bytes.
  induction program with
  | nil => rfl
  | cons placed rest ih =>
    simp only [lines, bytes, List.flatMap_cons, List.length_append, List.length_replicate] at ih ⊢
    rw [ih]

/-- No instruction is without an opcode byte. -/
theorem Instruction.bytes_length_pos (instruction : Instruction) :
    0 < instruction.bytes.length := by
  -- The opcode byte comes first in either form of a load.
  cases instruction with
  | load index =>
    simp only [bytes]
    split <;> exact Nat.succ_pos _
  | binary | negate | ret => exact Nat.succ_pos _

/-- The opcode of a load of the constant at an index. -/
def Opcode.loadOf (index : Nat) : Opcode :=
  if index ≤ maxShortIndex then constant else constantLong

/-- A load is as long as its opcode says. -/
theorem Instruction.length_load (index : Nat) :
    (load index).bytes.length = (Opcode.loadOf index).width := by
  -- The form of a load and its opcode are chosen alike.
  rw [bytes, Opcode.loadOf, maxShortIndex, apply_ite List.length, apply_ite Opcode.width]
  rfl

/-- Where the code goes on with the bytes of a load, a listing shows the load. -/
theorem Chunk.entry_of_load {chunk : Chunk} {offset index : Nat} (fits : index < maxConstants)
    (stands : (Instruction.load index).bytes <+: chunk.code.toList.drop offset) :
    chunk.entry offset = .load (.loadOf index) index chunk.constants[index]? := by
  obtain ⟨rest, whole⟩ := stands
  -- Reading ahead of the offset is reading in the bytes of the load.
  have ahead (place : Nat) : chunk.code[offset + place]? =
      ((Instruction.load index).bytes ++ rest)[place]? := by
    rw [whole, List.getElem?_drop, Array.getElem?_toList]
  have opened : chunk.code[offset]? = _ := ahead 0
  -- The index decides on the form of the load, and so on the opcode that is read.
  by_cases short : index ≤ maxShortIndex
  · have same := Instruction.toNat_ofNat_of_le short
    rw [Instruction.bytes_load_of_le short] at opened ahead
    simp [entry, opened, Opcode.ofByte?_toByte, loadEntry_constant, ahead, same, Opcode.loadOf,
      short]
  · rw [Instruction.bytes_load_of_not_le short] at opened ahead
    -- The three bytes give the index back, as it is below the limit of the pool.
    simp [entry, opened, Opcode.ofByte?_toByte, loadEntry_constantLong, ahead, LongIndex.bytes,
      LongIndex.toNat_ofNat fits, Opcode.loadOf, short]

/-- The chunk holds some instructions from an offset on, with their lines. -/
structure Chunk.Holds (chunk : Chunk) (offset : Nat) (program : List Placed) : Prop where
  /-- The bytes of the instructions stand there. -/
  code : Placed.bytes program <+: chunk.code.toList.drop offset
  /-- So do their lines. -/
  lines : Placed.lines program <+: chunk.byteLines.drop offset

namespace Chunk.Holds

variable {chunk : Chunk} {offset : Nat} {first second : List Placed} {placed : Placed}

/-- A program that is held is held from its beginning. -/
theorem left (held : chunk.Holds offset (first ++ second)) : chunk.Holds offset first where
  -- The bytes of the first part come first, and their lines do too.
  code := by
    have code := held.code
    rw [Placed.bytes_append] at code
    exact (List.prefix_append _ _).trans code
  lines := by
    have lines := held.lines
    rw [Placed.lines_append] at lines
    exact (List.prefix_append _ _).trans lines

/-- Behind the bytes of the first part, the second one is held. -/
theorem right (held : chunk.Holds offset (first ++ second)) :
    chunk.Holds (offset + (Placed.bytes first).length) second where
  -- Dropping the first part leaves the second, in front of the same rest.
  code := by
    obtain ⟨rest, whole⟩ := held.code
    refine ⟨rest, ?_⟩
    rw [← List.drop_drop, ← whole, Placed.bytes_append, List.append_assoc, List.drop_left]
  lines := by
    obtain ⟨rest, whole⟩ := held.lines
    -- There are as many lines to drop as there are bytes.
    refine ⟨rest, ?_⟩
    rw [← List.drop_drop, ← whole, Placed.lines_append, List.append_assoc,
      ← Placed.length_lines, List.drop_left]

/-- A byte of an instruction stands behind those before it. -/
theorem code_at (held : chunk.Holds offset [placed]) (index : Nat) {byte : UInt8}
    (found : placed.instruction.bytes[index]? = some byte) :
    chunk.code[offset + index]? = some byte := by
  -- The byte lies inside the prefix that the instruction makes up.
  obtain ⟨rest, whole⟩ := held.code
  have single : Placed.bytes [placed] = placed.instruction.bytes := List.append_nil _
  have inside := (List.getElem?_eq_some_iff.1 found).1
  rw [← Array.getElem?_toList, ← List.getElem?_drop, ← whole, single,
    List.getElem?_append_left inside, found]

/-- The opcode byte of an instruction has the line of the instruction. -/
theorem line_at (held : chunk.Holds offset [placed]) : chunk.line? offset = some placed.line := by
  obtain ⟨rest, whole⟩ := held.lines
  -- No instruction is without its opcode byte.
  obtain ⟨count, size⟩ := Nat.exists_eq_add_one.2 placed.instruction.bytes_length_pos
  have single : Placed.lines [placed] = placed.line :: List.replicate count placed.line := by
    simp [Placed.lines, size, List.replicate_succ]
  rw [Chunk.line?_eq, ← Nat.add_zero offset, ← List.getElem?_drop, ← whole, single]
  rfl

end Chunk.Holds

namespace Machine

variable {machine : Machine} {line : UInt32}

/-- A run goes on from the state that its first step leads to. -/
theorem run_running {later : Machine} (stepped : machine.step = .running later) :
    machine.run = later.run := by
  -- A run does its first step, and goes on from there.
  rw [run]
  split
  next next found => cases found.symm.trans stepped; rfl
  next found => cases found.symm.trans stepped

/-- A run ends at once with a step that stops. -/
theorem run_stopped {outcome : Outcome} {last : Machine}
    (stepped : machine.step = .stopped outcome last) : machine.run = (outcome, last) := by
  -- A run ends with the step that stops.
  rw [run]
  split
  next found => cases found.symm.trans stepped
  next found => cases found.symm.trans stepped; rfl

/-- The states that a machine comes to, instruction by instruction, until one of them stops it. -/
def Reaches : Machine → Machine → Prop :=
  Relation.ReflTransGen fun machine later => machine.step = .running later

/-- A machine comes to the state behind its own step. -/
theorem Reaches.step {later : Machine} (stepped : machine.step = .running later) :
    machine.Reaches later :=
  .single stepped

/-- What is reached from a state on the way is reached. -/
theorem Reaches.trans {middle later : Machine} (earlier : machine.Reaches middle)
    (after : middle.Reaches later) : machine.Reaches later :=
  Relation.ReflTransGen.trans earlier after

/-- A run goes on from any state that it reaches. -/
theorem Reaches.run_eq {later : Machine} (reached : machine.Reaches later) :
    machine.run = later.run := by
  -- A step on the way does not change where the run ends.
  induction reached with
  | refl => rfl
  | tail _ stepped ih => rw [ih, run_running stepped]

/-- A load of either form pushes the constant at its index, and ends behind its bytes. -/
theorem step_load {index : Nat} (held : machine.chunk.Holds machine.cursor [⟨.load index, line⟩])
    (fits : index < maxConstants) :
    machine.step =
      machine.load index (machine.cursor + (Instruction.load index).bytes.length) := by
  -- The listing shows a load there, and the machine executes what is shown.
  have stands := held.code
  rw [Placed.bytes, List.flatMap_singleton] at stands
  rw [step_eq_execute, Chunk.entry_of_load fits stands, Instruction.length_load]
  rfl

/-- An operator combines the two values on top, and ends behind its byte. -/
theorem step_binary {op : BinaryOp}
    (held : machine.chunk.Holds machine.cursor [⟨.binary op, line⟩]) :
    machine.step = machine.combine op (machine.cursor + 1) := by
  -- The opcode byte is the first one, and the only one.
  have opcode : machine.chunk.code[machine.cursor]? = some (Opcode.binary op).toByte :=
    held.code_at 0 rfl
  simp only [step, opcode, Opcode.ofByte?_toByte]

/-- A negation replaces the value on top, and ends behind its byte. -/
theorem step_negate {value : Value} {below : List Value}
    (held : machine.chunk.Holds machine.cursor [⟨.negate, line⟩])
    (stack : machine.stack = value :: below) :
    machine.step =
      .running { machine with cursor := machine.cursor + 1, stack := value.negate :: below } := by
  -- One byte is enough to know the instruction.
  have opcode : machine.chunk.code[machine.cursor]? = some Opcode.negate.toByte :=
    held.code_at 0 rfl
  simp only [step, opcode, Opcode.ofByte?_toByte, stack]

/-- A return takes the value on top, and ends behind its byte. -/
theorem step_ret {value : Value} {below : List Value}
    (held : machine.chunk.Holds machine.cursor [⟨.ret, line⟩])
    (stack : machine.stack = value :: below) :
    machine.step =
      .stopped (.ok value) { machine with cursor := machine.cursor + 1, stack := below } := by
  -- The byte of a return is enough too.
  have opcode : machine.chunk.code[machine.cursor]? = some Opcode.ret.toByte :=
    held.code_at 0 rfl
  simp only [step, opcode, Opcode.ofByte?_toByte, stack]

end Machine

end ByteCalc
