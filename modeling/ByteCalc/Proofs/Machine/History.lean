import ByteCalc.Interpret
import ByteCalc.Proofs.Machine.Trail

/-! Histories of calls: the cursor never leaves the code, and every run moves it on to the end. -/

namespace ByteCalc

namespace Machine

section Steps

variable {machine : Machine}

/-- No operation writes to the code. -/
theorem operate_later_chunk (machine : Machine) (opcode : Opcode) :
    (machine.operate opcode).later.chunk = machine.chunk := by
  -- Only the cursor and the stack are changed.
  unfold operate
  split
  · split <;> rfl
  all_goals rfl

/-- No load writes to the code, whether it finds its constant or not. -/
theorem load_later_chunk (machine : Machine) (index next : Nat) :
    (machine.load index next).later.chunk = machine.chunk := by
  unfold load
  split <;> rfl

/-- No instruction changes the chunk, not even one that fails. -/
theorem step_later_chunk (machine : Machine) : machine.step.later.chunk = machine.chunk := by
  -- Whatever stands there, the code is never written.
  rw [step_eq_execute]
  cases machine.chunk.entry machine.cursor with
  | endOfCode | unknown | truncated => rfl
  | plain opcode => exact machine.operate_later_chunk opcode
  | load opcode index constant => exact machine.load_later_chunk index _

/-- Behind the code, an instruction leaves the machine as it is. -/
theorem step_later_outside (outside : machine.chunk.code.size ≤ machine.cursor) :
    machine.step.later = machine := by
  rw [step_outside outside]
  rfl

/-- Inside the code, an instruction moves the cursor on, even if it fails. -/
theorem cursor_lt_step_later (inside : machine.cursor < machine.chunk.code.size) :
    machine.cursor < machine.step.later.cursor := by
  -- A listing moves on with each row, and the machine goes with it.
  rw [step_cursor inside]
  exact machine.chunk.lt_row_next inside

/-- An instruction never takes the cursor back. -/
theorem cursor_le_step_later (machine : Machine) : machine.cursor ≤ machine.step.later.cursor := by
  -- Inside the code a step moves on, and outside it stays where it is.
  by_cases inside : machine.cursor < machine.chunk.code.size
  · exact Nat.le_of_lt (cursor_lt_step_later inside)
  · exact Nat.le_of_eq (by rw [step_later_outside (Nat.le_of_not_lt inside)])

/-- The cursor stands at a byte of the code, or right behind the last one. -/
def WithinCode (machine : Machine) : Prop :=
  machine.cursor ≤ machine.chunk.code.size

/-- A new machine stands at the first byte. -/
theorem withinCode_start (chunk : Chunk) : (start chunk).WithinCode :=
  Nat.zero_le _

/-- An instruction keeps the cursor within the code, even if it fails halfway. -/
theorem WithinCode.step (within : machine.WithinCode) : machine.step.later.WithinCode := by
  -- A step goes where the row of a listing ends.
  unfold WithinCode
  by_cases inside : machine.cursor < machine.chunk.code.size
  · -- The row ends inside the code, or at its end.
    rw [step_later_chunk, step_cursor inside]
    exact machine.chunk.row_next_le_size inside
  · rw [step_later_outside (Nat.le_of_not_lt inside)]
    exact within

/-- A state that a run from a machine may be in, as far as its chunk and its cursor go. -/
structure Onward (machine state : Machine) : Prop where
  /-- The chunk is the same. -/
  chunk : state.chunk = machine.chunk
  /-- The cursor stands within the code. -/
  within : state.WithinCode
  /-- The cursor has not gone back. -/
  cursor : machine.cursor ≤ state.cursor

/-- A machine within its code is such a state of its own. -/
theorem WithinCode.onward (within : machine.WithinCode) : machine.Onward machine :=
  ⟨rfl, within, Nat.le_refl _⟩

/-- An instruction leads from one such state to another, even if it fails. -/
theorem Onward.step {state : Machine} (onward : machine.Onward state) :
    machine.Onward state.step.later where
  chunk := state.step_later_chunk.trans onward.chunk
  within := onward.within.step
  cursor := Nat.le_trans onward.cursor state.cursor_le_step_later

end Steps

namespace Trail

variable {machine last : Machine} {states : List Machine} {outcome : Outcome}

/-- A run fetches once for each byte ahead at the most, and once more at the end. -/
theorem length_le (trail : machine.Trail states outcome last) :
    states.length ≤ machine.chunk.code.size - machine.cursor + 1 := by
  -- Every instruction that does not stop the machine leaves less code ahead.
  induction trail with
  -- A run that stops at once has fetched once.
  | stopped => exact Nat.le_add_left 1 _
  | running stepped _ ih =>
    have less := step_remaining stepped
    rw [List.length_cons]
    omega

/-- What holds of the first state and is kept by every instruction holds all along a run. -/
theorem forall_states {kept : Machine → Prop}
    (keeps : ∀ state : Machine, kept state → kept state.step.later)
    (trail : machine.Trail states outcome last) (first : kept machine) :
    (∀ state ∈ states, kept state) ∧ kept last := by
  -- The state behind each instruction is the next one of the run, or its last one.
  induction trail with
  -- The list has one state, and the last one is behind its step.
  | @stopped machine last outcome stepped =>
    have behind := keeps machine first
    rw [stepped] at behind
    exact ⟨fun state mem => List.mem_singleton.1 mem ▸ first, behind⟩
  -- The state behind the step starts the rest of the run.
  | @running machine later last states outcome stepped onward ih =>
    have behind := keeps machine first
    rw [stepped] at behind
    obtain ⟨all, final⟩ := ih behind
    exact ⟨List.forall_mem_cons.2 ⟨first, all⟩, final⟩

/-- A run neither changes the chunk nor takes the cursor back or out of the code. -/
theorem within (trail : machine.Trail states outcome last) (within : machine.WithinCode) :
    (∀ state ∈ states, state.chunk = machine.chunk ∧ state.WithinCode) ∧
      last.chunk = machine.chunk ∧ last.WithinCode ∧ machine.cursor ≤ last.cursor := by
  -- Each instruction keeps to the states that lie onward of the first one.
  obtain ⟨all, final⟩ := trail.forall_states (fun _ => Onward.step) within.onward
  exact ⟨fun state mem => ⟨(all state mem).chunk, (all state mem).within⟩, final.chunk,
    final.within, final.cursor⟩

/-- A run that starts at a byte of the code ends behind it. -/
theorem cursor_lt (trail : machine.Trail states outcome last)
    (inside : machine.cursor < machine.chunk.code.size) : machine.cursor < last.cursor := by
  -- The first instruction moves the cursor on, and no other one takes it back.
  have moved := cursor_lt_step_later inside
  have within := WithinCode.step (Nat.le_of_lt inside)
  cases trail with
  -- Only one instruction has been executed.
  | stopped stepped =>
    rw [stepped] at moved
    exact moved
  -- The rest of the run starts behind the first instruction.
  | running stepped onward =>
    rw [stepped] at moved within
    exact Nat.lt_of_lt_of_le moved (onward.within within).2.2.2

end Trail

variable {machine : Machine}

/-- The state that a run leaves has the same chunk, and its cursor within the code. -/
theorem WithinCode.run (within : machine.WithinCode) :
    machine.run.2.chunk = machine.chunk ∧ machine.run.2.WithinCode := by
  -- A run ends in the last state of its trail.
  obtain ⟨_, _, last, trail⟩ := machine.exists_trail
  rw [trail.run_eq]
  exact ⟨(trail.within within).2.1, (trail.within within).2.2.1⟩

/-- A run that starts inside the code gets on. -/
theorem cursor_lt_run (inside : machine.cursor < machine.chunk.code.size) :
    machine.cursor < machine.run.2.cursor := by
  -- The first step moves on, and the others do not go back.
  obtain ⟨_, _, last, trail⟩ := machine.exists_trail
  rw [trail.run_eq]
  exact trail.cursor_lt inside

/-- At the end of the code, a run misses a return and changes nothing. -/
theorem run_at_end (ended : machine.cursor = machine.chunk.code.size) :
    machine.run = (.error ⟨.missingReturn, machine.chunk.line? machine.cursor⟩, machine) := by
  exact run_stopped (step_outside (Nat.le_of_eq ended.symm))

/-- What can be asked of a machine from outside. -/
inductive Call where
  /-- A new machine on a chunk. -/
  | new (chunk : Chunk)
  /-- Another chunk for the machine, from its first byte and with an empty stack. -/
  | reset (chunk : Chunk)
  /-- A run from where the cursor stands, on the values that are left on the stack. -/
  | run
  /-- A run of a chunk from its first byte. -/
  | interpret (chunk : Chunk)

/-- The machine that a call leaves, whatever its outcome. -/
def Call.apply (machine : Machine) : Call → Machine
  | new chunk => .start chunk
  | reset chunk => { machine with chunk, cursor := 0, stack := [] }
  | run => machine.run.2
  | interpret chunk => (interpretChunk chunk).2

/-- The machine that some calls leave, one after the other. -/
def after (machine : Machine) (calls : List Call) : Machine :=
  calls.foldl Call.apply machine

/-- No call takes the cursor out of the code. -/
theorem WithinCode.apply (within : machine.WithinCode) (call : Call) :
    (call.apply machine).WithinCode := by
  -- A new chunk is started at its first byte, and a run keeps within the code.
  cases call with
  | new chunk => exact withinCode_start chunk
  | reset chunk => exact Nat.zero_le _
  | run => exact within.run.2
  | interpret chunk => exact (withinCode_start chunk).run.2

/-- No number of calls takes the cursor out of the code. -/
theorem WithinCode.after (within : machine.WithinCode) (calls : List Call) :
    (machine.after calls).WithinCode := by
  -- Each call starts from what the calls before it have left.
  induction calls generalizing machine with
  | nil => exact within
  | cons call later ih => exact ih (within.apply call)

/-- The first of some runs leaves the machine that the others start from. -/
theorem after_replicate_succ (machine : Machine) (count : Nat) :
    machine.after (List.replicate (count + 1) .run) =
      machine.run.2.after (List.replicate count .run) :=
  rfl

/-- So many runs on one machine take its cursor on by as many bytes, or to the end of the code. -/
theorem after_runs (within : machine.WithinCode) (count : Nat) :
    let last := machine.after (List.replicate count .run)
    last.chunk = machine.chunk ∧
      (machine.cursor + count ≤ last.cursor ∨ last.cursor = machine.chunk.code.size) := by
  -- The other runs start where the first one has left the machine.
  induction count generalizing machine with
  | zero => exact ⟨rfl, .inl (Nat.le_refl _)⟩
  | succ count ih =>
    obtain ⟨sameChunk, stays⟩ := within.run
    obtain ⟨chunk, moved⟩ := ih stays
    rw [after_replicate_succ]
    refine ⟨chunk.trans sameChunk, ?_⟩
    rw [sameChunk] at moved
    by_cases inside : machine.cursor < machine.chunk.code.size
    · -- The first run moves on by a byte at least.
      have onward := cursor_lt_run inside
      omega
    · -- A run at the end stays there, and so do the others.
      have ended : machine.cursor = machine.chunk.code.size := Nat.le_antisymm within (by omega)
      have same : machine.run.2 = machine := by rw [run_at_end ended]
      have bound := stays.after (List.replicate count .run)
      rw [WithinCode, chunk, sameChunk] at bound
      rw [same] at moved bound ⊢
      omega

/-- Where the cursor of a machine can be, and where its runs take it. -/
structure Advances (machine : Machine) : Prop where
  /-- The cursor stands at a byte of the code, or right behind the last one. -/
  within : machine.cursor ≤ machine.chunk.code.size
  /-- So it does in every state in which a run fetches an instruction, and behind each of these. -/
  fetched : ∀ state ∈ machine.fetches, state.chunk = machine.chunk ∧
    state.cursor ≤ machine.chunk.code.size ∧ state.step.later.cursor ≤ machine.chunk.code.size
  /-- A run ends after one fetch for each byte ahead at the most, and one more. -/
  bounded : machine.fetches.size ≤ (machine.chunk.code.size - machine.cursor) + 1
  /-- A run that starts inside the code moves the cursor on, whether it returns or fails. -/
  onward : machine.cursor < machine.chunk.code.size → machine.cursor < machine.run.2.cursor
  /-- A run that starts at the end of the code misses a return, and changes nothing. -/
  absorbed : machine.cursor = machine.chunk.code.size →
    machine.run = (.error ⟨.missingReturn, machine.chunk.line? machine.cursor⟩, machine)
  /-- As many runs as there are bytes of code take the machine to that end, where it stays. -/
  exhausted : ∀ count, machine.chunk.code.size ≤ count →
    let last := machine.after (List.replicate count .run)
    last.chunk = machine.chunk ∧ last.cursor = machine.chunk.code.size ∧
      last.run = (.error ⟨.missingReturn, last.chunk.line? last.cursor⟩, last)

/-- After any calls on a new machine, the cursor is within the code, and every run moves it on. -/
theorem advances_after (chunk : Chunk) (calls : List Call) :
    ((start chunk).after calls).Advances := by
  -- Calls keep the cursor within the code, and that is all that is needed of them.
  have within : ((start chunk).after calls).WithinCode := (withinCode_start chunk).after calls
  generalize (start chunk).after calls = machine at within
  -- The states of a run are those of its trail.
  obtain ⟨states, outcome, last, trail⟩ := machine.exists_trail
  refine ⟨within, fun state mem => ?_, ?_, cursor_lt_run, run_at_end, fun count enough => ?_⟩
  · -- Each state of the trail is within the code, and so is the state behind it.
    rw [← Array.mem_toList_iff, trail.toList_fetches] at mem
    obtain ⟨sameChunk, stays⟩ := (trail.within within).1 state mem
    have behind := stays.step
    rw [WithinCode, step_later_chunk, sameChunk] at behind
    exact ⟨sameChunk, sameChunk ▸ stays, behind⟩
  · -- The trail has no more states than there are bytes ahead, and one.
    rw [← Array.length_toList, trail.toList_fetches]
    exact trail.length_le
  · -- The cursor cannot have moved on by so many bytes without reaching the end.
    obtain ⟨sameChunk, moved⟩ := after_runs within count
    have bound := within.after (List.replicate count .run)
    rw [WithinCode, sameChunk] at bound
    have ended : (machine.after (List.replicate count .run)).cursor = machine.chunk.code.size := by
      omega
    exact ⟨sameChunk, ended, run_at_end (sameChunk.symm ▸ ended)⟩

/-- A run that is taken up behind a failed instruction moves on, here to a load that is cut off. -/
theorem advances_after_cutOff :
    let chunk : Chunk := { code := #[2, 1, 0, 0], constants := #[⟨0⟩] }
    let machine := (start chunk).after [.run, .reset chunk, .run]
    machine.cursor = 1 ∧ machine.cursor < machine.run.2.cursor ∧ machine.run.2.cursor = 4 := by
  intro chunk machine
  -- The addition finds no operands, and the cursor is behind it.
  have failed : (start chunk).step =
      .stopped (.error ⟨.stackUnderflow, chunk.line? 0⟩) ⟨chunk, 1, []⟩ := rfl
  -- The next run starts at the load, whose third operand byte is missing.
  have cut : Machine.step ⟨chunk, 1, []⟩ =
      .stopped (.error ⟨.truncatedInstruction 1, chunk.line? 1⟩) ⟨chunk, 4, []⟩ := rfl
  have first : (start chunk).run.2 = ⟨chunk, 1, []⟩ := by rw [run_stopped failed]
  have same : machine = ⟨chunk, 1, []⟩ := first
  -- Whatever was called before, the general result holds of the machine.
  have advances : machine.Advances := advances_after chunk [.run, .reset chunk, .run]
  have inside : machine.cursor < machine.chunk.code.size := by rw [same]; decide
  exact ⟨by rw [same], advances.onward inside, by rw [same, run_stopped cut]⟩

end Machine

end ByteCalc
