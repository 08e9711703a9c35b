import ByteCalc.Proofs.Machine.Trail

/-! Values that lie below the operands of a run are neither read nor changed by it. -/

namespace ByteCalc

/-- The machine with other values below those on its stack. -/
def Machine.onTopOf (machine : Machine) (below : List Value) : Machine :=
  { machine with stack := machine.stack ++ below }

/-- What an instruction leads to, with other values below those on the stack that it leaves. -/
def Step.onTopOf (below : List Value) : Step → Step
  | running machine => running (machine.onTopOf below)
  | stopped outcome last => stopped outcome (last.onTopOf below)

namespace Machine

section Steps

variable {machine : Machine}

/-- Values below the others leave the chunk as it is. -/
@[simp] theorem onTopOf_chunk (below : List Value) :
    (machine.onTopOf below).chunk = machine.chunk :=
  rfl

/-- Values below the others leave the cursor as it is. -/
@[simp] theorem onTopOf_cursor (below : List Value) :
    (machine.onTopOf below).cursor = machine.cursor :=
  rfl

/-- A load puts its constant on top, and does not look at the stack at all. -/
theorem load_onTopOf (machine : Machine) (index next : Nat) (below : List Value) :
    (machine.onTopOf below).load index next = (machine.load index next).onTopOf below := by
  -- The pool is the same, and so is what it holds at the index.
  simp only [load, onTopOf_chunk]
  cases machine.chunk.constants[index]? <;> rfl

/-- An operation takes its operands off the top, so that enough of them hide what lies below. -/
theorem operate_onTopOf {opcode : Opcode} (below : List Value)
    (enough : (machine.operate opcode).fault? ≠ some .stackUnderflow) :
    (machine.onTopOf below).operate opcode = (machine.operate opcode).onTopOf below := by
  -- How many operands there have to be depends on the opcode.
  obtain ⟨chunk, cursor, stack⟩ := machine
  cases opcode with
  -- Loads are no operations, and count as lacking operands here.
  | constant | constantLong => exact absurd rfl enough
  | negate | ret =>
    cases stack with
    -- With no value, the operand is missing.
    | nil => exact absurd rfl enough
    -- With a value on top, the others stay where they are.
    | cons value rest => rfl
  | binary op =>
    rcases stack with _ | ⟨right, _ | ⟨left, rest⟩⟩
    · -- No operand is there.
      exact absurd rfl enough
    · -- The left operand is missing.
      exact absurd rfl enough
    · -- The divisor is one of the operands, so that it is zero on both stacks or on neither.
      simp only [operate, onTopOf, List.cons_append]
      split <;> rfl

/-- An instruction that has its operands does the same, whatever lies below them. -/
theorem step_onTopOf (below : List Value) (enough : machine.step.fault? ≠ some .stackUnderflow) :
    (machine.onTopOf below).step = machine.step.onTopOf below := by
  -- The code decides what is executed, and only operations look at the stack.
  rw [step_eq_execute] at enough
  rw [step_eq_execute, step_eq_execute, onTopOf_chunk, onTopOf_cursor]
  cases stands : machine.chunk.entry machine.cursor with
  -- These look at the code and at nothing else.
  | endOfCode | unknown | truncated => rfl
  | plain opcode =>
    rw [stands] at enough
    exact operate_onTopOf below enough
  | load opcode index constant => exact machine.load_onTopOf index _ below

end Steps

section Runs

variable {machine last : Machine} {states : List Machine} {outcome : Outcome}

/-- A run that has its operands goes through the same states, with the same values below. -/
theorem Trail.onTopOf (trail : machine.Trail states outcome last) (below : List Value)
    (enough : ∀ line, outcome ≠ .error ⟨.stackUnderflow, line⟩) :
    (machine.onTopOf below).Trail (states.map (·.onTopOf below)) outcome (last.onTopOf below) := by
  -- Each step that goes on has found its operands, and the last one has not failed for them.
  induction trail with
  | @stopped machine last outcome stepped =>
    -- A step that stops lacks operands only if the run does.
    have found : machine.step.fault? ≠ some .stackUnderflow := by
      rw [stepped]
      rcases outcome with ⟨fault, line⟩ | value
      · -- An error of the run is the error of this step.
        rintro ⟨⟩
        exact enough line rfl
      · exact nofun
    exact .stopped ((step_onTopOf below found).trans (by rw [stepped]; rfl))
  | @running machine later last states outcome stepped onward ih =>
    have found : machine.step.fault? ≠ some .stackUnderflow := by
      rw [stepped]
      exact nofun
    exact .running ((step_onTopOf below found).trans (by rw [stepped]; rfl)) (ih enough)

end Runs

/--
A run that does not lack operands ends alike with any values below its stack, and keeps them.

The outcome and the cursor are the same, and the values lie below what the run leaves.
-/
theorem run_onTopOf (machine : Machine) (below : List Value)
    (enough : ∀ line, machine.run.1 ≠ .error ⟨.stackUnderflow, line⟩) :
    (machine.onTopOf below).run = (machine.run.1, machine.run.2.onTopOf below) := by
  obtain ⟨states, outcome, last, trail⟩ := machine.exists_trail
  rw [trail.run_eq] at enough ⊢
  exact (trail.onTopOf below enough).run_eq

/-- A division by zero takes its operands off the stack, and leaves the values below them. -/
theorem run_onTopOf_quotient :
    let chunk : Chunk := ⟨#[0, 0, 5, 7], #[⟨0⟩], #[⟨2, 1⟩, ⟨2, 4⟩]⟩
    let machine : Machine := ⟨chunk, 0, [⟨1⟩]⟩
    (∀ line, machine.run.1 ≠ .error ⟨.stackUnderflow, line⟩) ∧
      (machine.onTopOf [⟨2⟩, ⟨3⟩]).run =
        (.error ⟨.divisionByZero, some 4⟩, ⟨chunk, 3, [⟨2⟩, ⟨3⟩]⟩) := by
  intro chunk machine
  have place : chunk.line? 2 = some 4 := by
    rw [Chunk.line?_eq]
    rfl
  -- One load, and then a division of the value below by the zero that was loaded.
  have loaded : machine.step = .running ⟨chunk, 2, [⟨0⟩, ⟨1⟩]⟩ := rfl
  have divided : step ⟨chunk, 2, [⟨0⟩, ⟨1⟩]⟩ =
      .stopped (.error ⟨.divisionByZero, chunk.line? 2⟩) ⟨chunk, 3, []⟩ := rfl
  have ran := (Trail.running loaded (.stopped divided)).run_eq
  have enough : ∀ line, machine.run.1 ≠ .error ⟨.stackUnderflow, line⟩ := by
    rw [ran]
    exact nofun
  -- The outcome is that of the run on the shorter stack.
  refine ⟨enough, ?_⟩
  rw [run_onTopOf machine [⟨2⟩, ⟨3⟩] enough, ran, place]
  rfl

end Machine

end ByteCalc
