import ByteCalc.Proofs.Machine.Execution
import ByteCalc.Proofs.Machine.Stream

/-! The machine executes the instruction stream of its code, and leaves what that leaves. -/

namespace ByteCalc

namespace Chunk

/-- The piece at an offset, which is what a listing shows there. -/
def piece? (chunk : Chunk) (offset : Nat) : Option Piece :=
  match chunk.entry offset with
  | .endOfCode => none
  | .unknown byte => some (.unknown byte)
  | .plain opcode => some (.plain opcode)
  | .truncated _ => some (.truncated (chunk.code.size - offset))
  | .load opcode index _ => some (.load index opcode.width)

/-- The stream of the code from an offset on is the piece there, and the stream behind it. -/
theorem stream_drop (chunk : Chunk) (offset : Nat) :
    Piece.stream (chunk.code.toList.drop offset) =
      match chunk.piece? offset with
      | none => []
      | some piece =>
        piece :: Piece.stream (chunk.code.toList.drop (offset + piece.width)) := by
  -- A listing looks bytes up by their offsets, and the stream takes them off the front.
  have ahead (place : Nat) :
      chunk.code[offset + place]? = (chunk.code.toList.drop offset)[place]? := by
    rw [List.getElem?_drop, Array.getElem?_toList]
  have left : chunk.code.size - offset = (chunk.code.toList.drop offset).length := by
    rw [List.length_drop, Array.length_toList]
  have opened : chunk.code[offset]? = _ := ahead 0
  simp only [← List.drop_drop]
  generalize chunk.code.toList.drop offset = bytes at ahead left opened
  -- How many bytes a load finds behind it decides whether it is whole.
  cases bytes with
  | nil => simp [piece?, entry, opened, Piece.stream]
  | cons byte rest =>
    cases known : Opcode.ofByte? byte with
    | none => simp [piece?, entry, opened, known, Piece.stream, Piece.width]
    | some opcode =>
      cases opcode with
      | constant =>
        rcases rest with _ | ⟨index, rest⟩ <;>
          simp [piece?, entry, opened, known, loadEntry_constant, ahead, left, Piece.stream,
            Piece.width, Opcode.width]
      -- Three bytes are needed, and any of them may be the first to be missing.
      | constantLong =>
        rcases rest with _ | ⟨low, _ | ⟨middle, _ | ⟨high, rest⟩⟩⟩ <;>
          simp [piece?, entry, opened, known, loadEntry_constantLong, ahead, left, Piece.stream,
            Piece.width, Opcode.width]
      -- These need no byte besides their own.
      | binary | negate | ret =>
        rw [Piece.stream.eq_def]
        simp [piece?, entry, opened, known, Piece.width]

end Chunk

namespace Machine

variable {chunk : Chunk} {cursor : Nat} {stack : List Value} {piece : Piece}

/-- An operation that goes on in the execution of the stream goes on in the machine. -/
theorem operate_of_after? {opcode : Opcode} {later : List Value}
    (goesOn : (Piece.plain opcode).after? chunk.constants stack = some later) :
    operate ⟨chunk, cursor, stack⟩ opcode = .running ⟨chunk, cursor + 1, later⟩ := by
  -- Negations go on, and so do operators that divide by no zero.
  unfold Piece.after? at goesOn
  split at goesOn
  next same => cases same
  next same =>
    cases same
    cases goesOn
    rfl
  next same =>
    cases same
    split at goesOn
    · cases goesOn
    next nonzero =>
      cases goesOn
      simp only [operate, if_neg nonzero]
  next => cases goesOn

/-- An operation that does not go on returns, lacks operands, or divides by zero. -/
theorem operate_of_not_after? {opcode : Opcode} (single : opcode.isLoad = false)
    (stuck : (Piece.plain opcode).after? chunk.constants stack = none) :
    ∃ outcome last, Stop.Leaves chunk ⟨cursor, some (.plain opcode), stack⟩ outcome last ∧
      operate ⟨chunk, cursor, stack⟩ opcode = .stopped outcome last := by
  -- The stack is looked at as far down as the operation needs values.
  cases opcode with
  | constant | constantLong => cases single
  | negate =>
    -- With a value on top, a negation goes on.
    cases stack with
    | nil => exact ⟨_, _, .stackUnderflow Nat.one_pos, rfl⟩
    | cons => cases stuck
  | ret =>
    -- With a value on top, a return stops with it.
    cases stack with
    | nil => exact ⟨_, _, .stackUnderflow Nat.one_pos, rfl⟩
    | cons => exact ⟨_, _, .returned, rfl⟩
  | binary op =>
    rcases stack with _ | ⟨right, _ | ⟨left, below⟩⟩
    · -- Both operands are missing.
      exact ⟨_, _, .stackUnderflow Nat.two_pos, rfl⟩
    · -- The left operand is missing.
      exact ⟨_, _, .stackUnderflow Nat.one_lt_two, rfl⟩
    · by_cases byZero : op = .divide ∧ right.isZero
      · obtain ⟨rfl, zero⟩ := byZero
        refine ⟨_, _, .divisionByZero zero, ?_⟩
        simp only [operate, zero, and_self, if_true]
        rfl
      · -- Another operator has a result, and so has a division by anything else.
        simp only [Piece.after?, if_neg byZero] at stuck
        cases stuck

/-- Where the execution of the stream goes on behind a piece, so does the machine. -/
theorem step_of_after? {later : List Value} (found : chunk.piece? cursor = some piece)
    (goesOn : piece.after? chunk.constants stack = some later) :
    step ⟨chunk, cursor, stack⟩ = .running ⟨chunk, cursor + piece.width, later⟩ := by
  rw [step_eq_execute]
  -- Only loads and operations go on.
  rw [Chunk.piece?] at found
  dsimp only
  generalize chunk.entry cursor = entry at found ⊢
  cases entry with
  | endOfCode => cases found
  | unknown | truncated =>
    cases found
    cases goesOn
  | plain opcode =>
    cases found
    exact operate_of_after? goesOn
  -- The stream goes on with a load only if the pool has its constant.
  | load opcode index constant =>
    cases found
    obtain ⟨value, pooled, rfl⟩ := Option.map_eq_some_iff.1 goesOn
    simp only [execute, load, pooled, Piece.width]

/-- Where the execution of the stream stops at a piece, the machine stops with what that leaves. -/
theorem step_of_not_after? (found : chunk.piece? cursor = some piece)
    (stuck : piece.after? chunk.constants stack = none) :
    ∃ outcome last, Stop.Leaves chunk ⟨cursor, some piece, stack⟩ outcome last ∧
      step ⟨chunk, cursor, stack⟩ = .stopped outcome last := by
  rw [step_eq_execute]
  -- Each kind of piece has its own way to stop, as each kind of entry has.
  have stands := chunk.entry_stands cursor
  rw [Chunk.piece?] at found
  dsimp only
  generalize chunk.entry cursor = entry at found stands ⊢
  cases stands with
  | endOfCode => cases found
  | unknown =>
    cases found
    exact ⟨_, _, .unknownOpcode, rfl⟩
  | plain _ single =>
    cases found
    exact operate_of_not_after? single stuck
  | truncated =>
    cases found
    exact ⟨_, _, .truncatedInstruction, rfl⟩
  | @load opcode index =>
    cases found
    have missing : chunk.constants[index]? = none := Option.map_eq_none_iff.1 stuck
    simp only [execute, load, missing]
    exact ⟨_, _, .constantOutOfRange (Array.getElem?_eq_none_iff.1 missing), rfl⟩

/-- Behind the last piece the code has ended. -/
theorem size_le_of_piece?_eq_none (ended : chunk.piece? cursor = none) :
    chunk.code.size ≤ cursor := by
  -- Wherever there is a byte, there is a piece.
  have stands := chunk.entry_stands cursor
  rw [Chunk.piece?] at ended
  generalize chunk.entry cursor = entry at ended stands
  cases stands with
  | endOfCode outside => exact outside
  | unknown | plain | truncated | load => cases ended

/-- No piece goes on behind the end of the code. -/
theorem add_width_le_of_piece? (found : chunk.piece? cursor = some piece) :
    cursor + piece.width ≤ chunk.code.size := by
  -- Where a piece ends is read off the entry that stands there.
  have stands := chunk.entry_stands cursor
  rw [Chunk.piece?] at found
  generalize chunk.entry cursor = entry at found stands
  cases stands with
  | endOfCode => cases found
  | unknown opened | plain opened =>
    cases found
    exact (Array.getElem?_eq_some_iff.1 opened).1
  | truncated opened =>
    -- What is left of a load that is cut off ends with the code.
    cases found
    have inside := (Array.getElem?_eq_some_iff.1 opened).1
    simp only [Piece.width]
    omega
  | load _ _ whole =>
    cases found
    exact whole

/-- The machine comes to where the execution of a stream stops, if the stream is that of its code. -/
theorem reaches_execute (stack : List Value) {pieces : List Piece}
    (within : cursor ≤ chunk.code.size)
    (ahead : Piece.stream (chunk.code.toList.drop cursor) = pieces) :
    let stop := Piece.execute chunk.constants cursor pieces stack
    Reaches ⟨chunk, cursor, stack⟩ ⟨chunk, stop.offset, stop.stack⟩ ∧
      stop.offset ≤ chunk.code.size ∧ chunk.piece? stop.offset = stop.piece ∧
      ∀ piece ∈ stop.piece, piece.after? chunk.constants stop.stack = none := by
  -- Each piece of the stream that is passed is one step of the machine.
  induction pieces generalizing cursor stack with
  | nil =>
    -- Nothing is ahead, so that the code has ended.
    rw [chunk.stream_drop] at ahead
    split at ahead
    next ended => exact ⟨.refl, within, ended, fun _ none => nomatch none⟩
    next => cases ahead
  | cons piece pieces ih =>
    rw [chunk.stream_drop] at ahead
    split at ahead
    next => cases ahead
    next found =>
      obtain ⟨rfl, behind⟩ := List.cons.inj ahead
      rw [Piece.execute]
      split
      -- The machine takes one step with the piece, and the rest is ahead of it.
      next later goesOn =>
        obtain ⟨reached, final⟩ := ih later (add_width_le_of_piece? found) behind
        exact ⟨(Reaches.step (step_of_after? found goesOn)).trans reached, final⟩
      -- The execution stops at the piece, where the machine has come to.
      next stuck =>
        refine ⟨.refl, within, found, fun piece same => ?_⟩
        cases same
        exact stuck

/-- Where the execution of the stream stops, the machine stops with what the stop leaves. -/
theorem exists_leaves {stop : Stop} (within : stop.offset ≤ chunk.code.size)
    (own : chunk.piece? stop.offset = stop.piece)
    (stuck : ∀ piece ∈ stop.piece, piece.after? chunk.constants stop.stack = none) :
    ∃ outcome last, stop.Leaves chunk outcome last ∧
      step ⟨chunk, stop.offset, stop.stack⟩ = .stopped outcome last := by
  -- Without a piece, the stop is at the end of the code.
  obtain ⟨offset, piece, stack⟩ := stop
  cases piece with
  | some piece => exact step_of_not_after? own (stuck piece rfl)
  | none =>
    -- Behind the code, only the missing return is left.
    have outside := size_le_of_piece?_eq_none own
    obtain rfl : offset = chunk.code.size := Nat.le_antisymm within outside
    exact ⟨_, _, .missingReturn, step_outside (Nat.le_refl _)⟩

/-- A run of a machine against the execution of the instruction stream of its code. -/
structure Refines (machine : Machine) (stop : Stop) : Prop where
  /-- The machine comes to the instruction that stops the execution, with the same stack. -/
  reached : machine.Reaches ⟨machine.chunk, stop.offset, stop.stack⟩
  /-- This is the instruction that the code goes on with at its offset. -/
  piece : stop.piece = (Piece.stream (machine.chunk.code.toList.drop stop.offset)).head?
  /-- The run ends with what is left at the stop, and with nothing else. -/
  ends : ∀ outcome last, machine.run = (outcome, last) ↔ stop.Leaves machine.chunk outcome last
  /-- It misses operands exactly if the stack has fewer values than the instruction needs. -/
  underflow : (∃ line, machine.run.1 = .error ⟨.stackUnderflow, line⟩) ↔
    stop.stack.length < stop.operands
  /-- It divides by zero exactly if the instruction is a division, and a zero is on top. -/
  division : (∃ line, machine.run.1 = .error ⟨.divisionByZero, line⟩) ↔
    stop.piece = some (.plain (.binary .divide)) ∧
      ∃ right left below, stop.stack = right :: left :: below ∧ right.isZero

/--
A run from any cursor within any code, on any stack, executes the instruction stream ahead.

The stream is decoded before any of it is executed, while the machine reads the code byte by byte.
-/
theorem run_refines (chunk : Chunk) (stack : List Value) {cursor : Nat}
    (within : cursor ≤ chunk.code.size) :
    Refines ⟨chunk, cursor, stack⟩
      (Piece.execute chunk.constants cursor (Piece.stream (chunk.code.toList.drop cursor))
        stack) := by
  -- The stream ahead of the cursor is the one that is executed.
  obtain ⟨reached, inside, own, stuck⟩ := reaches_execute stack within rfl
  generalize Piece.execute chunk.constants cursor _ stack = stop at reached inside own stuck ⊢
  -- The run goes on from where the machine has come to, and that is where it stops.
  obtain ⟨outcome, last, leaves, stepped⟩ := exists_leaves inside own stuck
  have ran : run ⟨chunk, cursor, stack⟩ = (outcome, last) :=
    reached.run_eq.trans (run_stopped stepped)
  refine ⟨reached, ?_, fun other final => ?_, ?_, ?_⟩
  · -- The stream starts with the piece, or is empty.
    rw [chunk.stream_drop, own]
    cases stop.piece <;> rfl
  · -- The machine stops in one way, and so does the execution.
    rw [ran]
    refine ⟨fun same => ?_, fun also => ?_⟩
    · cases same
      exact leaves
    · -- What the run ends with is what the stop leaves.
      obtain ⟨rfl, rfl⟩ := leaves.unique also
      rfl
  · rw [ran]
    exact leaves.underflow_iff
  · rw [ran]
    exact leaves.division_iff

/-- From the operand byte of a load on, the code is a negation that makes a zero to divide by. -/
theorem run_refines_negative_zero :
    let chunk : Chunk := { code := #[0, 6, 5, 1, 0] }
    1 ≤ chunk.code.size ∧
      Piece.stream (chunk.code.toList.drop 1) =
        [.plain .negate, .plain (.binary .divide), .truncated 2] ∧
      run ⟨chunk, 1, [⟨0⟩, ⟨1⟩, ⟨2⟩]⟩ = (.error ⟨.divisionByZero, none⟩, ⟨chunk, 3, [⟨2⟩]⟩) := by
  intro chunk
  -- The offset is that of the operand byte, and not of the load.
  have within : 1 ≤ chunk.code.size := by decide
  have refines := run_refines chunk [⟨0⟩, ⟨1⟩, ⟨2⟩] within
  have zero : Value.isZero (Value.negate ⟨0⟩) := by decide
  -- The chunk has no table of lines.
  have line : chunk.line? 2 = none := by decide +kernel
  refine ⟨within, rfl, (refines.ends _ _).2 ?_⟩
  rw [← line]
  exact .divisionByZero zero

end Machine

end ByteCalc
