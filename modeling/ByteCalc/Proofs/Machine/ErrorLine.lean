import ByteCalc.Proofs.Chunk.Canonical
import ByteCalc.Proofs.Machine.History

/-! Errors of a run carry the line that the opcode of the failed instruction was written for. -/

namespace ByteCalc

namespace Machine

section Steps

variable {machine last : Machine} {error : RuntimeError}

/-- An operation that fails reports the line of its opcode byte. -/
theorem operate_error_line {opcode : Opcode}
    (stopped : machine.operate opcode = .stopped (.error error) last) :
    error.line = machine.chunk.line? machine.cursor := by
  -- Missing operands and a zero divisor are noticed when the cursor has passed the opcode.
  unfold operate at stopped
  split at stopped
  · split at stopped <;> cases stopped
    rfl
  all_goals cases stopped
  rfl

/-- A load whose constant is missing reports the line of its opcode byte too. -/
theorem load_error_line {index next : Nat}
    (stopped : machine.load index next = .stopped (.error error) last) :
    error.line = machine.chunk.line? machine.cursor := by
  -- So it is when the operand bytes are read, and the pool has no constant for them.
  unfold load at stopped
  split at stopped <;> cases stopped
  rfl

/-- An instruction that fails reports the line of its first byte, wherever the cursor is by then. -/
theorem step_error_line (stopped : machine.step = .stopped (.error error) last) :
    error.line = machine.chunk.line? machine.cursor := by
  -- The cursor may have passed operand bytes, or may have been left at the end of the code.
  rw [step_eq_execute] at stopped
  generalize machine.chunk.entry machine.cursor = entry at stopped
  cases entry with
  -- None of these three moves the cursor before it looks up the line.
  | endOfCode | unknown | truncated =>
    cases stopped
    rfl
  | plain opcode => exact operate_error_line stopped
  | load opcode index constant => exact load_error_line stopped

/-- A return is missed at the end of the code, and nowhere else. -/
theorem missingReturn_iff (stopped : machine.step = .stopped (.error error) last) :
    error.fault = .missingReturn ↔ machine.chunk.code.size ≤ machine.cursor := by
  -- Inside the code there is a byte to stop at, whatever it is.
  refine ⟨fun missing => size_le_of_missingReturn ?_, fun outside => ?_⟩
  · rw [stopped, Step.fault?, missing]
  · rw [step_outside outside] at stopped
    cases stopped
    rfl

/-- All states of a run have one chunk. -/
theorem Reaches.chunk_eq {later : Machine} (reached : machine.Reaches later) :
    later.chunk = machine.chunk := by
  -- No step to another state changes the chunk.
  induction reached with
  | refl => rfl
  | tail _ stepped ih => exact (step_running stepped).1.trans ih

/-- Whatever a run ends with comes from the one instruction that stops it. -/
theorem Trail.exists_stopped {states : List Machine} {outcome : Outcome}
    (trail : machine.Trail states outcome last) :
    ∃ state, machine.Reaches state ∧ state.step = .stopped outcome last := by
  -- It is the last one of the trail.
  induction trail with
  | stopped stepped => exact ⟨_, .refl, stepped⟩
  | running stepped _ ih =>
    obtain ⟨state, reached, stopped⟩ := ih
    exact ⟨state, (Reaches.step stepped).trans reached, stopped⟩

/-- The same for a run, whose trail need not be known. -/
theorem exists_stopped {outcome : Outcome} (ended : machine.run = (outcome, last)) :
    ∃ state, machine.Reaches state ∧ state.step = .stopped outcome last := by
  obtain ⟨states, other, final, trail⟩ := machine.exists_trail
  cases trail.run_eq.symm.trans ended
  exact trail.exists_stopped

end Steps

/-- The error of a run, with the offset of the instruction that has raised it. -/
structure Blames (chunk : Chunk) (lines : List UInt32) (machine : Machine) (error : RuntimeError)
    (last : Machine) (offset : Nat) : Prop where
  /-- The run comes to the instruction at the offset, and stops there with the error. -/
  raised : ∃ stack, machine.Reaches ⟨chunk, offset, stack⟩ ∧
    step ⟨chunk, offset, stack⟩ = .stopped (.error error) last
  /-- A missing return has no line, and it alone. -/
  unknown : error.line = none ↔ error.fault = .missingReturn
  /-- Any other error has the line that was passed with the opcode byte at the offset. -/
  known : error.fault ≠ .missingReturn →
    offset < chunk.code.size ∧ ∃ line, lines[offset]? = some line ∧ error.line = some line

/-- An error of a machine on a chunk built by edits has the line passed for its instruction. -/
theorem blames_of_run {machine last : Machine} {error : RuntimeError} (edits : List Edit)
    (own : machine.chunk = Chunk.empty.edited edits) (failed : machine.run = (.error error, last)) :
    ∃ offset, Blames (Chunk.empty.edited edits) (Chunk.empty.editLines edits) machine error last
      offset := by
  let lines := Chunk.empty.editLines edits
  obtain ⟨⟨chunk, offset, stack⟩, reached, stopped⟩ := exists_stopped failed
  -- The run may have come any way, but its chunk is the one that was built.
  obtain rfl : chunk = Chunk.empty.edited edits := reached.chunk_eq.trans own
  -- There is a line for each byte, so the lines tell where the code ends.
  have size : (Chunk.empty.edited edits).code.size = lines.length :=
    (Chunk.edited_code_size .empty edits).trans (Nat.zero_add _)
  -- The line of a byte in the runs is the line that was passed with it.
  have line : error.line = lines[offset]? := by
    rw [step_error_line stopped, Chunk.line?_eq, Chunk.byteLines_edited]
  -- The number of lines is the size of the code.
  have missing : error.fault = .missingReturn ↔ lines.length ≤ offset := by
    rw [missingReturn_iff stopped, size]
  refine ⟨offset, ⟨stack, reached, stopped⟩, ?_, fun other => ?_⟩
  · -- The lines end where the code ends.
    rw [line, List.getElem?_eq_none_iff, missing]
  · -- An instruction inside the code has an opcode byte, for which a line was passed.
    have inside : offset < lines.length := Nat.lt_of_not_le (mt missing.2 other)
    have passed := List.getElem?_eq_getElem inside
    exact ⟨size ▸ inside, _, passed, line.trans passed⟩

/--
On a chunk that is built by any edits, errors point at the instruction that raises them.

The machine may have been run any number of times before, so it may start amid an instruction and on
values that are left over.
-/
theorem run_error_line (edits : List Edit) (count : Nat) {error : RuntimeError} {last : Machine}
    (failed : ((start (Chunk.empty.edited edits)).after (List.replicate count .run)).run =
      (.error error, last)) :
    ∃ offset, Blames (Chunk.empty.edited edits) (Chunk.empty.editLines edits)
      ((start (Chunk.empty.edited edits)).after (List.replicate count .run)) error last offset :=
  -- No run changes the chunk.
  blames_of_run edits (after_runs (withinCode_start _) count).1 failed

/-- The line is not that of the operand byte at fault, nor that of the byte behind it. -/
theorem run_error_line_operand :
    let edits : List Edit :=
      [.write 0xEE 4, .writeOpcode .constant 5, .write 9 6, .writeOpcode .ret 7]
    let chunk := Chunk.empty.edited edits
    let machine := (start chunk).after (List.replicate 1 .run)
    let error : RuntimeError := ⟨.constantOutOfRange 9 0, some 5⟩
    machine.run = (.error error, ⟨chunk, 3, []⟩) ∧
      chunk.line? 2 = some 6 ∧ chunk.line? 3 = some 7 ∧
      ∃ offset, Blames chunk (Chunk.empty.editLines edits) machine error ⟨chunk, 3, []⟩ offset := by
  intro edits chunk machine error
  -- The first run stops at the unknown byte, and the second one goes on from behind it.
  have first : (start chunk).step =
      .stopped (.error ⟨.unknownOpcode 0xEE, chunk.line? 0⟩) ⟨chunk, 1, []⟩ := rfl
  have second : step ⟨chunk, 1, []⟩ =
      .stopped (.error ⟨.constantOutOfRange 9 0, chunk.line? 1⟩) ⟨chunk, 3, []⟩ := rfl
  -- Lines are looked up in the runs that the edits have built.
  have line : chunk.line? 1 = some 5 := by decide +kernel
  have same : machine = ⟨chunk, 1, []⟩ := congrArg Prod.snd (run_stopped first)
  have failed : machine.run = (.error error, ⟨chunk, 3, []⟩) := by
    rw [same, run_stopped second, line]
  exact ⟨failed, by decide +kernel, by decide +kernel, run_error_line edits 1 failed⟩

end Machine

end ByteCalc
