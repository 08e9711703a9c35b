import ByteCalc.Chunk

/-! The stack machine: one instruction at a time over the bytes of a chunk. -/

namespace ByteCalc

/-- A machine with a chunk to execute, a cursor into its code and a stack of values. -/
structure Machine where
  /-- The chunk whose code is executed. -/
  chunk : Chunk
  /-- The offset of the next byte to read. -/
  cursor : Nat := 0
  /-- The values on the stack, the top first. -/
  stack : List Value := []

/-- What a run ends with. -/
abbrev Outcome := Except RuntimeError Value

/-- What one instruction leads to. -/
inductive Step where
  /-- The machine goes on from a new state. -/
  | running (machine : Machine)
  /-- The machine stops with an outcome, and keeps the state it stopped in. -/
  | stopped (outcome : Outcome) (machine : Machine)

/-- The number of stack slots that are set aside unless another number is asked for. -/
def defaultStackCapacity : Nat := 256

/-- The number of bytes in a stack slot. -/
def slotBytes : Nat := 8

/-- The most bytes that can be asked for at once, which a signed word has to hold. -/
def maxAllocation : Nat := 0x7FFFFFFFFFFFFFFF

/-- Some stack slots can be set aside, as far as their number goes. -/
def StackFits (slots : Nat) : Prop :=
  slots * slotBytes ≤ maxAllocation

instance (slots : Nat) : Decidable (StackFits slots) :=
  inferInstanceAs (Decidable (_ ≤ _))

namespace Machine

/-- A machine at the start of a chunk, with an empty stack. -/
def start (chunk : Chunk) : Machine := { chunk }

/-- A machine at the start of a chunk with some stack slots set aside, unless those are too many. -/
def startWith? (slots : Nat) (chunk : Chunk) : Option Machine :=
  -- The stack grows past the slots, so that their number makes no other difference.
  if StackFits slots then some (start chunk) else none

/-- The values on the stack, the bottom first. -/
def stackUp (machine : Machine) : List Value :=
  machine.stack.reverse

/-- Stops in a later state with a fault of the instruction that starts at this machine's cursor. -/
def fail (machine : Machine) (fault : RuntimeFault) (later : Machine) : Step :=
  -- The line is that of the first byte of the instruction, not of the bytes read after it.
  .stopped (.error ⟨fault, machine.chunk.line? machine.cursor⟩) later

/-- Pushes the constant at an index, after a load that ends at an offset. -/
def load (machine : Machine) (index next : Nat) : Step :=
  -- The cursor has passed the operand bytes even when the pool has no such constant.
  let later := { machine with cursor := next }
  match machine.chunk.constants[index]? with
  | some value => .running { later with stack := value :: machine.stack }
  | none => machine.fail (.constantOutOfRange index machine.chunk.constants.size) later

/-- Stops at the end of the code, past an instruction whose operand bytes are cut off. -/
def cutOff (machine : Machine) : Step :=
  machine.fail (.truncatedInstruction machine.cursor)
    { machine with cursor := machine.chunk.code.size }

/-- Applies an operator to the two values on top, the right operand being the topmost. -/
def combine (machine : Machine) (op : BinaryOp) (next : Nat) : Step :=
  -- A division by zero takes both operands off the stack.
  match machine.stack with
  | right :: left :: below =>
    if op = .divide ∧ right.isZero then
      machine.fail .divisionByZero { machine with cursor := next, stack := below }
    else
      .running { machine with cursor := next, stack := op.apply left right :: below }
  -- A single value is taken off before the missing one is noticed.
  | _ => machine.fail .stackUnderflow { machine with cursor := next, stack := [] }

/-- Executes the instruction under the cursor. -/
def step (machine : Machine) : Step :=
  -- Operand bytes are read before the pool is asked, and the pool before the stack changes.
  let code := machine.chunk.code
  let next := machine.cursor + 1
  match code[machine.cursor]? with
  | none => machine.fail .missingReturn machine
  | some byte =>
    match Opcode.ofByte? byte with
    | none => machine.fail (.unknownOpcode byte) { machine with cursor := next }
    | some .constant =>
      match code[next]? with
      | some index => machine.load index.toNat (next + 1)
      | none => machine.cutOff
    | some .constantLong =>
      match code[next]?, code[next + 1]?, code[next + 2]? with
      | some low, some middle, some high =>
        machine.load (LongIndex.mk low middle high).toNat (next + 3)
      | _, _, _ => machine.cutOff
    | some (.binary op) => machine.combine op next
    | some .negate =>
      match machine.stack with
      | value :: below =>
        .running { machine with cursor := next, stack := value.negate :: below }
      | [] => machine.fail .stackUnderflow { machine with cursor := next }
    | some .ret =>
      match machine.stack with
      | value :: below => .stopped (.ok value) { machine with cursor := next, stack := below }
      | [] => machine.fail .stackUnderflow { machine with cursor := next }

/-- A load that goes on keeps the chunk and moves the cursor to the end of the load. -/
theorem load_running {machine later : Machine} {index next : Nat}
    (ran : machine.load index next = .running later) :
    later.chunk = machine.chunk ∧ later.cursor = next := by
  -- A missing constant stops the machine, which leaves the other branch.
  unfold load at ran
  split at ran <;> cases ran
  exact ⟨rfl, rfl⟩

/-- An operator that goes on keeps the chunk and moves the cursor past its byte. -/
theorem combine_running {machine later : Machine} {op : BinaryOp} {next : Nat}
    (ran : machine.combine op next = .running later) :
    later.chunk = machine.chunk ∧ later.cursor = next := by
  -- Missing operands and a zero divisor stop the machine, which leaves the last branch.
  unfold combine at ran
  split at ran
  · split at ran <;> cases ran
    exact ⟨rfl, rfl⟩
  · cases ran

/-- A step that goes on keeps the chunk, and moves the cursor on within the code. -/
theorem step_running {machine later : Machine} (ran : machine.step = .running later) :
    later.chunk = machine.chunk ∧ machine.cursor < later.cursor ∧
      later.cursor ≤ machine.chunk.code.size := by
  -- Every byte that was read lies inside the code, and the cursor stops right after the last one.
  simp only [step] at ran
  split at ran
  · cases ran
  next opened =>
    have reached := (Array.getElem?_eq_some_iff.1 opened).1
    split at ran
    · cases ran
    · split at ran
      next operand =>
        have inside := (Array.getElem?_eq_some_iff.1 operand).1
        obtain ⟨sameChunk, moved⟩ := load_running ran
        exact ⟨sameChunk, by omega, by omega⟩
      · cases ran
    · split at ran
      next operand =>
        have inside := (Array.getElem?_eq_some_iff.1 operand).1
        obtain ⟨sameChunk, moved⟩ := load_running ran
        exact ⟨sameChunk, by omega, by omega⟩
      · cases ran
    · obtain ⟨sameChunk, moved⟩ := combine_running ran
      exact ⟨sameChunk, by omega, by omega⟩
    · split at ran <;> cases ran
      exact ⟨rfl, Nat.lt_succ_self _, reached⟩
    · split at ran <;> cases ran

/-- A step that goes on leaves less code ahead. -/
theorem step_remaining {machine later : Machine} (ran : machine.step = .running later) :
    later.chunk.code.size - later.cursor < machine.chunk.code.size - machine.cursor := by
  -- The code stays the same while the cursor moves on.
  obtain ⟨sameChunk, ahead, inside⟩ := step_running ran
  rw [sameChunk]
  omega

/-- Executes instructions until one stops the machine. -/
def run (machine : Machine) : Outcome × Machine :=
  match ran : machine.step with
  | .running later =>
    have := step_remaining ran
    run later
  | .stopped outcome last => (outcome, last)
termination_by machine.chunk.code.size - machine.cursor

/-- The states in which a run fetches an instruction, in order, after those already seen. -/
def fetchesFrom (machine : Machine) (seen : Array Machine) : Array Machine :=
  match ran : machine.step with
  | .running later =>
    have := step_remaining ran
    fetchesFrom later (seen.push machine)
  | .stopped _ _ => seen.push machine
termination_by machine.chunk.code.size - machine.cursor

/-- The states in which a run fetches an instruction, the first one included. -/
def fetches (machine : Machine) : Array Machine :=
  machine.fetchesFrom #[]

end Machine

end ByteCalc
